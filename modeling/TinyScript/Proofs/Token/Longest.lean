import TinyScript.Proofs.Token.Lossless
import TinyScript.Proofs.Token.Newline

/-! The first pattern that matches takes the most. A pattern stands for a set of texts, and takes the
longest of them that it finds at the front. The table is in such an order that of two patterns that
match at one place the earlier takes more: most have no first character in common, and of the others
the later one is a single character. So the order of the table never cuts an operator, a comment or
a word short, and a word is reserved only as a whole. -/

namespace TinyScript

namespace Pattern

variable {p q : Pattern} {c : Char} {cs text rest other : List Char}

/-- The texts that a pattern stands for. -/
inductive Admits : Pattern → List Char → Prop
  | word {c : Char} {cs : List Char} (hc : isWordStart c) (hcs : ∀ d ∈ cs, isWordPart d) :
      Admits word (c :: cs)
  | digits {c : Char} {cs : List Char} (hc : c.isDigit) (hcs : ∀ d ∈ cs, d.isDigit) :
      Admits digits (c :: cs)
  | blanks {c : Char} {cs : List Char} (hc : Text.isBlank c) (hcs : ∀ d ∈ cs, Text.isBlank d) :
      Admits blanks (c :: cs)
  | quoted {raw : List Char} (h : Inside raw) : Admits quoted ('"' :: (raw ++ ['"']))
  | comment {body : List Char} (h : '\n' ∉ body) : Admits comment ('/' :: '/' :: body)
  | mark {kind : TokenKind} {first : Char} {more : List Char} :
      Admits (mark kind first more) (first :: more)

def Matches (p : Pattern) (cs : List Char) : Prop := ∃ text, p.Admits text ∧ text <+: cs

/-- At the front of `cs` the pattern takes `text`, the longest of its texts there. -/
structure Takes (p : Pattern) (cs text : List Char) : Prop where
  admits : p.Admits text
  front : text <+: cs
  longest : ∀ ⦃other⦄, p.Admits other → other <+: cs → other <+: text

theorem admits_of_split? (h : p.split? cs = some (text, rest)) : p.Admits text := by
  cases p with
  | word =>
    obtain ⟨c, run, rfl, hc, hrun⟩ := run?_eq_some h
    exact .word hc hrun
  | digits =>
    obtain ⟨c, run, rfl, hc, hrun⟩ := run?_eq_some h
    exact .digits hc hrun
  | blanks =>
    obtain ⟨c, run, rfl, hc, hrun⟩ := run?_eq_some h
    exact .blanks hc hrun
  | quoted =>
    rw [split?, string?.eq_def] at h
    split at h
    · obtain ⟨s, hs, he⟩ := Option.map_eq_some_iff.1 h
      cases he
      exact .quoted (inside_of_closing? hs)
    · cases h
  | comment =>
    obtain ⟨body, rfl, hbody, -⟩ := comment?_eq_some h
    exact .comment hbody
  | mark kind first more =>
    obtain ⟨left, -, he⟩ := Option.map_eq_some_iff.1 h
    cases he
    exact .mark

theorem exists_run? {first more : Char → Bool} {run : List Char} (hc : first c)
    (hrun : ∀ d ∈ run, more d) (after : List Char) :
    ∃ text rest, run? first more (c :: run ++ after) = some (text, rest) ∧ c :: run <+: text := by
  refine ⟨c :: (run ++ after).takeWhile more, _, if_pos hc, ?_⟩
  rw [List.takeWhile_append_of_pos hrun]
  exact List.prefix_append (c :: run) _

theorem exactly?_append (text rest : List Char) :
    exactly? text (text ++ rest) = some (text, rest) := by
  rw [exactly?, List.isPrefixOf?_eq_some_iff_append_eq.2 rfl]
  rfl

theorem exists_split?_of_admits (h : p.Admits other) (hfront : other <+: cs) :
    ∃ text rest, p.split? cs = some (text, rest) ∧ other <+: text := by
  obtain ⟨after, rfl⟩ := hfront
  cases h with
  | word hc hcs | digits hc hcs | blanks hc hcs => exact exists_run? hc hcs after
  | @quoted raw hraw =>
    refine ⟨_, after, ?_, List.prefix_rfl⟩
    simp [split?, string?, closing?_of_inside hraw]
  | @comment body hbody =>
    have hrun : ∀ d ∈ body, decide (d ≠ '\n') := fun d hd => by
      simpa using ne_of_mem_of_not_mem hd hbody
    refine ⟨'/' :: '/' :: (body ++ after).takeWhile (· ≠ '\n'), _, rfl, ?_⟩
    rw [List.takeWhile_append_of_pos hrun]
    exact List.prefix_append ('/' :: '/' :: body) _
  | mark => exact ⟨_, after, exactly?_append _ after, List.prefix_rfl⟩

theorem takes_of_split? (h : p.split? cs = some (text, rest)) : p.Takes cs text where
  admits := admits_of_split? h
  front := ⟨rest, (split?_cuts p h).2⟩
  longest other hother hfront := by
    obtain ⟨text', rest', h', hle⟩ := exists_split?_of_admits hother hfront
    rw [h] at h'
    cases h'
    exact hle

theorem split?_eq_none_iff : p.split? cs = none ↔ ¬ p.Matches cs := by
  constructor
  · rintro hnone ⟨other, hother, hfront⟩
    obtain ⟨text, rest, h, -⟩ := exists_split?_of_admits hother hfront
    rw [h] at hnone
    cases hnone
  · intro hno
    refine Option.eq_none_iff_forall_ne_some.2 fun s hs => hno ?_
    exact ⟨s.1, admits_of_split? hs, s.2, (split?_cuts p hs).2⟩

def starts : Pattern → Char → Bool
  | word => isWordStart
  | digits => Char.isDigit
  | blanks => Text.isBlank
  | quoted => (· == '"')
  | comment => (· == '/')
  | mark _ first _ => (· == first)

def isLong : Pattern → Bool
  | quoted | comment => true
  | mark _ _ more => !more.isEmpty
  | word | digits | blanks => false

theorem Admits.starts_head (h : p.Admits text) : ∃ c cs, text = c :: cs ∧ p.starts c := by
  cases h with
  | word hc _ | digits hc _ | blanks hc _ => exact ⟨_, _, rfl, hc⟩
  | quoted _ | comment _ | mark => exact ⟨_, _, rfl, beq_self_eq_true _⟩

theorem Admits.exists_two (h : p.Admits text) (hlong : p.isLong) :
    ∃ c d cs, text = c :: d :: cs := by
  cases h with
  | word | digits | blanks => cases hlong
  | @quoted raw _ =>
    cases raw with
    | nil => exact ⟨'"', '"', [], rfl⟩
    | cons d raw => exact ⟨'"', d, raw ++ ['"'], rfl⟩
  | comment _ => exact ⟨'/', '/', _, rfl⟩
  | @mark _ first more =>
    cases more with
    | nil => cases hlong
    | cons d cs => exact ⟨first, d, cs, rfl⟩

def Outruns (p q : Pattern) : Prop :=
  ∀ ⦃cs text other⦄, p.Admits text → text <+: cs → q.Admits other → other <+: cs →
    Text.byteLength other < Text.byteLength text

theorem outruns_of_apart (h : ∀ c, p.starts c → q.starts c = false) : Outruns p q := by
  intro cs text other htext hfront hother hfront'
  obtain ⟨c, _, rfl, hc⟩ := htext.starts_head
  obtain ⟨d, _, rfl, hd⟩ := hother.starts_head
  obtain ⟨_, rfl⟩ := hfront
  obtain rfl : d = c := (List.cons_prefix_cons.1 hfront').1
  rw [h d hc] at hd
  cases hd

theorem outruns_single (kind : TokenKind) (first : Char) (hlong : p.isLong) :
    Outruns p (mark kind first []) := by
  intro cs text other htext hfront hother hfront'
  obtain ⟨c, d, more, rfl⟩ := htext.exists_two hlong
  cases hother
  obtain ⟨_, rfl⟩ := hfront
  obtain rfl : first = c := (List.cons_prefix_cons.1 hfront').1
  have hpos := d.utf8Size_pos
  simp only [Text.byteLength_cons, Text.byteLength_nil]
  omega

/-- The first pattern can stand before the second in a table: they are apart, or the second is a
single character and the first is longer. -/
def precedes (p : Pattern) : Pattern → Bool
  | word => false
  | digits => p = word
  | blanks => p = word ∨ p = digits
  | quoted => !p.starts '"'
  | comment => !p.starts '/'
  | mark _ first more => !p.starts first || (more.isEmpty && p.isLong)

theorem isBlank_eq_false_of_starts (hp : p = word ∨ p = digits) (hc : p.starts c) :
    Text.isBlank c = false := by
  rcases hp with rfl | rfl
  · have hbounds := isWordStart_bounds hc
    exact Text.isBlank_of_bounds (by omega) (by omega)
  · have hbounds := isDigit_bounds hc
    exact Text.isBlank_of_bounds (by omega) (by omega)

theorem isDigit_eq_false_of_isWordStart (hc : isWordStart c) : c.isDigit = false := by
  refine Bool.eq_false_iff.2 fun hd => ?_
  have hword := isWordStart_bounds hc
  have hdigit := isDigit_bounds hd
  omega

theorem outruns_of_head {first : Char} (hq : q.starts = (· == first)) (h : p.starts first = false) :
    Outruns p q := by
  refine outruns_of_apart fun c hc => ?_
  rw [hq]
  refine beq_eq_false_iff_ne.2 fun he => ?_
  rw [he, h] at hc
  cases hc

theorem outruns_of_precedes (h : p.precedes q) : Outruns p q := by
  cases q with
  | word => cases h
  | digits =>
    obtain rfl : p = word := of_decide_eq_true h
    exact outruns_of_apart fun _ => isDigit_eq_false_of_isWordStart
  | blanks =>
    have hp : p = word ∨ p = digits := of_decide_eq_true h
    exact outruns_of_apart fun _ => isBlank_eq_false_of_starts hp
  | quoted | comment => exact outruns_of_head rfl ((Bool.not_eq_true' _).mp h)
  | mark kind first more =>
    rcases Bool.or_eq_true_iff.1 h with hapart | hsingle
    · exact outruns_of_head rfl ((Bool.not_eq_true' _).mp hapart)
    · obtain ⟨hmore, hlong⟩ := Bool.and_eq_true_iff.1 hsingle
      obtain rfl : more = [] := List.isEmpty_iff.1 hmore
      exact outruns_single kind first hlong

/-- Marks stand before those that they start with, and the comment before the slash. -/
theorem table_precedes : table.Pairwise fun p q => p.precedes q := by decide

theorem exists_first? (hq : q ∈ table) (hmatch : q.Matches cs) : ∃ s, first? cs = some s := by
  refine Option.ne_none_iff_exists'.1 fun hnone => ?_
  exact split?_eq_none_iff.1 (first?_eq_none_iff_forall.1 hnone q hq) hmatch

theorem first?_outruns (h : first? cs = some (p, text, rest)) :
    ∃ before after, table = before ++ p :: after ∧ (∀ r ∈ before, ¬ r.Matches cs) ∧
      p.Takes cs text ∧ ∀ r ∈ before ++ after, ∀ other, r.Admits other → other <+: cs →
        Text.byteLength other < Text.byteLength text := by
  obtain ⟨before, after, htable, hs, hnone⟩ := first?_eq_some_iff.1 h
  have hbefore : ∀ r ∈ before, ¬ r.Matches cs := fun r hr => split?_eq_none_iff.1 (hnone r hr)
  have htakes := takes_of_split? hs
  refine ⟨before, after, htable, hbefore, htakes, fun r hr other hother hfront => ?_⟩
  rcases List.mem_append.1 hr with hr | hr
  · exact absurd ⟨other, hother, hfront⟩ (hbefore r hr)
  · -- only here the order of the table counts
    have hpairs := table_precedes
    rw [htable] at hpairs
    have hlater := (List.pairwise_append.1 hpairs).2.1
    have houtruns := outruns_of_precedes ((List.pairwise_cons.1 hlater).1 r hr)
    exact houtruns htakes.admits htakes.front hother hfront

end Pattern

namespace TokenKind

theorem ofWord_of_mem {word : String} {k : TokenKind} (h : (word, k) ∈ reservedWords) :
    ofWord word = k := by
  have hall : ∀ e ∈ reservedWords, ofWord e.1 = e.2 := by decide
  exact hall (word, k) h

theorem ofWord_mem_reserved_iff (word : String) :
    ofWord word ∈ reservedWords.map Prod.snd ↔ word ∈ reservedWords.map Prod.fst := by
  constructor
  · intro hkind
    cases hlookup : ofReserved? word with
    | none =>
      rw [ofWord, hlookup] at hkind
      exact absurd hkind (by decide)
    | some k =>
      obtain ⟨l, m, hwords, -⟩ := List.lookup_eq_some_iff.1 hlookup
      rw [hwords]
      simp
  · intro hword
    obtain ⟨⟨w, k⟩, he, rfl⟩ := List.mem_map.1 hword
    rw [ofWord_of_mem he]
    exact List.mem_map_of_mem he

end TokenKind

/-- Where patterns match, the first of the table to match takes more bytes than every other. Where
it is the one of words, the word goes into one token, whose kind is reserved exactly if the whole
word is. -/
theorem first_match_is_longest {cs : List Char} {q : Pattern} (hq : q ∈ Pattern.table)
    (hmatch : q.Matches cs) :
    ∃ before p after text rest, Pattern.table = before ++ p :: after ∧
      (∀ r ∈ before, ¬ r.Matches cs) ∧ p.Takes cs text ∧
      (∀ r ∈ before ++ after, ∀ other, r.Takes cs other →
        Text.byteLength other < Text.byteLength text) ∧
      Pattern.first? cs = some (p, text, rest) ∧
      (p = .word → ∀ file offset, ∃ t : Token,
        Token.scan file offset cs =
          (Token.scan file (offset + Text.byteLength text) rest).map (t :: ·) ∧
        t.value = String.ofList text ∧
        (t.kind ∈ TokenKind.reservedWords.map Prod.snd ↔
          t.value ∈ TokenKind.reservedWords.map Prod.fst) ∧
        ∀ k, (t.value, k) ∈ TokenKind.reservedWords → t.kind = k) := by
  obtain ⟨⟨p, text, rest⟩, hfirst⟩ := Pattern.exists_first? hq hmatch
  obtain ⟨before, after, htable, hbefore, htakes, hlonger⟩ := Pattern.first?_outruns hfirst
  refine ⟨before, p, after, text, rest, htable, hbefore, htakes,
    fun r hr other hother => hlonger r hr other hother.admits hother.front, hfirst, ?_⟩
  rintro rfl file offset
  refine ⟨⟨.ofWord (String.ofList text), String.ofList text,
    .atBytes file offset (offset + Text.byteLength text)⟩, Token.scan_of_first hfirst, rfl, ?_, ?_⟩
  · exact TokenKind.ofWord_mem_reserved_iff (String.ofList text)
  · exact fun k => TokenKind.ofWord_of_mem

def slashes : List Char := ['/', '/', 'é', '\n']

def iffy : List Char := ['i', 'f', 'f', 'y', '(']

theorem first_match_is_longest_slashes_iffy :
    (Pattern.mark .slash '/' []).Matches slashes ∧
      Pattern.comment.Takes slashes ['/', '/', 'é'] ∧
      (∀ r ∈ Pattern.table, r ≠ .comment → ∀ other, r.Takes slashes other →
        Text.byteLength other < 4) ∧
      Pattern.word.Matches iffy ∧
      ∃ t : Token, Token.scan "shell" 0 iffy = (Token.scan "shell" 4 ['(']).map (t :: ·) ∧
        t.value = "iffy" ∧ t.kind ∉ TokenKind.reservedWords.map Prod.snd := by
  have hslash : (Pattern.mark .slash '/' []).Matches slashes := ⟨['/'], .mark, _, rfl⟩
  have hword : Pattern.word.Matches iffy := ⟨['i'], .word rfl nofun, _, rfl⟩
  obtain ⟨before, p, after, text, rest, htable, -, htakes, hlonger, hfirst, -⟩ :=
    first_match_is_longest (by decide) hslash
  cases hfirst
  obtain ⟨_, p, _, text, rest, -, -, -, -, hfirst, hyields⟩ :=
    first_match_is_longest (by decide) hword
  cases hfirst
  obtain ⟨t, hscan, hvalue, hkind, -⟩ := hyields rfl "shell" 0
  refine ⟨hslash, htakes, fun r hr hne => hlonger r ?_, hword, t, hscan, hvalue, ?_⟩
  · rw [htable] at hr
    simpa [hne] using hr
  · rw [hkind, hvalue]
    decide

end TinyScript
