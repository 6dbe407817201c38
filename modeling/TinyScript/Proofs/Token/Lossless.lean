import Mathlib.Data.List.TakeWhile
import TinyScript.Proofs.Places
import TinyScript.Proofs.Token.Scan

/-! Nothing of a text is lost in its tokens. The text is cut into the texts of the tokens and what
stands between them, and there only blanks and comments stand; where offsets do not wrap, the span
of each token says from where to where its text goes. -/

namespace TinyScript

/-- Text that makes no token, where `after` comes after it: blanks, and comments that go on to the
end of their line. -/
inductive Filler (after : List Char) : List Char → Prop
  | nil : Filler after []
  | blanks {run gap : List Char} (hne : run ≠ []) (hrun : ∀ c ∈ run, Text.isBlank c)
    (h : Filler after gap) : Filler after (run ++ gap)
  | comment {body gap : List Char} (hbody : '\n' ∉ body)
    (hend : ∀ c ∈ (gap ++ after).head?, c = '\n') (h : Filler after gap) :
    Filler after ('/' :: '/' :: body ++ gap)

/-- A text is the one of a token: for a string it is quoted and still has its escapes. -/
def Token.Shows (t : Token) (text : List Char) : Prop :=
  if t.kind = .string then
    ∃ raw value, text = '"' :: (raw ++ ['"']) ∧ Text.StandsFor raw value ∧
      t.value = String.ofList value
  else t.value = String.ofList text

/-- A text from byte `offset` on, cut into the texts of its tokens and what stands between them. -/
inductive Laid (file : String) : Nat → List Char → List Token → Prop
  | ending {offset last : Nat} {gap : List Char} (hlast : last = offset + Text.byteLength gap)
    (hgap : Filler [] gap) : Laid file offset gap [.eofAt (.atByte file last)]
  | token {offset first last : Nat} {gap text rest : List Char} {t : Token} {ts : List Token}
    (hfirst : first = offset + Text.byteLength gap) (hlast : last = first + Text.byteLength text)
    (hgap : Filler (text ++ rest) gap) (hne : text ≠ []) (hkind : t.kind ≠ .eof)
    (hspan : t.span = .atBytes file first last) (hshows : t.Shows text)
    (hrest : Laid file last rest ts) : Laid file offset (gap ++ (text ++ rest)) (t :: ts)

namespace Laid

variable {file : String} {offset : Nat} {cs skipped : List Char} {ts : List Token}

theorem skip (h : Laid file (offset + Text.byteLength skipped) cs ts)
    (hskip : ∀ gap after, cs = gap ++ after → Filler after gap → Filler after (skipped ++ gap)) :
    Laid file offset (skipped ++ cs) ts := by
  cases h with
  | ending hlast hgap =>
    refine .ending ?_ (hskip _ [] (List.append_nil _).symm hgap)
    rw [hlast, Text.byteLength_append, Nat.add_assoc]
  | @token _ first last gap text rest t ts hfirst hlast hgap hne hkind hspan hshows hrest =>
    rw [← List.append_assoc]
    refine .token ?_ hlast (hskip gap (text ++ rest) rfl hgap) hne hkind hspan hshows hrest
    rw [hfirst, Text.byteLength_append, Nat.add_assoc]

end Laid

namespace Pattern

theorem mark_kind_ne_string {k : TokenKind} {first : Char} {more : List Char}
    (h : mark k first more ∈ table) : k ≠ .string := by
  have hall : table.all (fun
    | mark k _ _ => k ≠ .string
    | _ => true) := by decide
  simpa using List.all_eq_true.1 hall _ h

theorem string?_eq_some {cs text rest : List Char} (h : string? cs = some (text, rest)) :
    ∃ raw, text = '"' :: (raw ++ ['"']) := by
  rw [string?.eq_def] at h
  split at h
  · obtain ⟨p, -, he⟩ := Option.map_eq_some_iff.1 h
    cases he
    exact ⟨p.1, rfl⟩
  · cases h

theorem comment?_eq_some {cs text rest : List Char} (h : comment? cs = some (text, rest)) :
    ∃ body, text = '/' :: '/' :: body ∧ '\n' ∉ body ∧ ∀ c ∈ rest.head?, c = '\n' := by
  rw [comment?.eq_def] at h
  split at h
  · next cs =>
    cases h
    refine ⟨_, rfl, fun hmem => ?_, fun c hc => ?_⟩
    · have hne := List.mem_takeWhile_imp hmem
      simp at hne
    · have hstop := List.head?_dropWhile_not (· ≠ '\n') cs
      rw [hc] at hstop
      simpa using hstop
  · cases h

theorem filler_of_lexeme? {p : Pattern} {cs text rest gap after : List Char}
    (hs : p.split? cs = some (text, rest)) (hl : p.lexeme? text = none)
    (hrest : rest = gap ++ after) (hgap : Filler after gap) : Filler after (text ++ gap) := by
  cases p with
  | word | digits | quoted | mark _ _ _ => cases hl
  | blanks => exact .blanks (run?_cuts _ _ hs).1 (run?_forall hs fun _ => id) hgap
  | comment =>
    obtain ⟨body, rfl, hbody, hend⟩ := comment?_eq_some hs
    exact .comment hbody (hrest ▸ hend) hgap

end Pattern

theorem TokenKind.ofWord_ne_string (word : String) : ofWord word ≠ .string := by
  intro h
  have hmem := ofWord_mem word
  simp [h, reservedWords] at hmem

namespace Token

theorem shows_of_lexeme? {p : Pattern} {cs text rest : List Char} {kind : TokenKind}
    {value : String} (hp : p ∈ Pattern.table) (hs : p.split? cs = some (text, rest))
    (hl : p.lexeme? text = some (kind, value)) (span : Span) :
    Shows ⟨kind, value, span⟩ text := by
  cases p with
  | blanks | comment => cases hl
  | word =>
    cases hl
    exact (if_neg (TokenKind.ofWord_ne_string _)).mpr rfl
  | digits =>
    cases hl
    rfl
  | quoted =>
    cases hl
    obtain ⟨raw, rfl⟩ := Pattern.string?_eq_some hs
    exact ⟨raw, _, rfl, Text.unescape_eq_iff.1 rfl, by simp⟩
  | mark k first more =>
    cases hl
    exact (if_neg (Pattern.mark_kind_ne_string hp)).mpr rfl

theorem laid_scan {file : String} {offset : Nat} {cs : List Char} {ts : List Token}
    (h : scan file offset cs = .ok ts) : Laid file offset cs ts := by
  fun_induction scan file offset cs generalizing ts with
  | case1 offset cs p text rest hfirst _ ih =>
    obtain ⟨hp, hs⟩ := Pattern.first?_split hfirst
    obtain ⟨hne, rfl⟩ := Pattern.split?_cuts p hs
    obtain ⟨us, hscan, rfl⟩ := exists_of_map_eq_ok h
    have hrest := ih hscan
    cases hl : p.lexeme? text with
    | none =>
      rw [ofMatch?, hl]
      exact hrest.skip fun _ _ => Pattern.filler_of_lexeme? hs hl
    | some l =>
      rw [ofMatch?, hl]
      have hlexed : Lexed ⟨l.1, l.2, .atBytes file offset (offset + Text.byteLength text)⟩ :=
        ⟨p, hp, _, _, _, hs, hl⟩
      rw [← List.nil_append (text ++ rest)]
      exact .token rfl rfl .nil hne hlexed.kind_ne_eof rfl (shows_of_lexeme? hp hs hl _) hrest
  | case2 offset _ =>
    obtain rfl := Except.ok.inj h
    exact .ending rfl .nil
  | case3 => cases h

end Token

namespace Span

def first (s : Span) : Nat := s.start.offset.toNat

def last (s : Span) : Nat := s.stop.offset.toNat

theorem first_atBytes {i : Nat} (h : i < 2 ^ 32) (file : String) (j : Nat) :
    (atBytes file i j).first = i := UInt32.toNat_ofNat_of_lt' h

theorem last_atBytes {j : Nat} (h : j < 2 ^ 32) (file : String) (i : Nat) :
    (atBytes file i j).last = j := UInt32.toNat_ofNat_of_lt' h

end Span

theorem Text.byteLength_pos {cs : List Char} (hne : cs ≠ []) : 0 < byteLength cs := by
  obtain ⟨c, cs, rfl⟩ := List.exists_cons_of_ne_nil hne
  rw [byteLength_cons]
  exact Nat.add_pos_left c.utf8Size_pos _

/-- From byte `first` up to byte `last` of a text stands `part`, and after it `after`. -/
def Text.Stands (source : List Char) (first last : Nat) (part after : List Char) : Prop :=
  ∃ before, source = before ++ (part ++ after) ∧ byteLength before = first ∧
    byteLength (before ++ part) = last

namespace Text.Stands

variable {source part after : List Char} {first last : Nat}

theorem le (h : Stands source first last part after) : first ≤ last := by
  obtain ⟨before, -, rfl, rfl⟩ := h
  simp

theorem lt (h : Stands source first last part after) (hne : part ≠ []) : first < last := by
  obtain ⟨before, -, rfl, rfl⟩ := h
  have hpos := byteLength_pos hne
  simp only [byteLength_append]
  omega

end Text.Stands

def Token.lastOf (start : Nat) (ts : List Token) : Nat :=
  (ts.getLast?.map fun t => t.span.last).getD start

theorem Token.lastOf_cons (start : Nat) (t : Token) (ts : List Token) :
    lastOf start (t :: ts) = lastOf t.span.last ts := by
  cases h : ts.getLast? <;> simp [lastOf, List.getLast?_cons, h]

/-- The tokens of a text from byte `start` on, with nothing lost. -/
structure Lossless (source : List Char) (file : String) (start : Nat) (ts : List Token) : Prop where
  ending : ∃ us last, ts = us ++ [last] ∧ last.kind = .eof ∧
    last.span.first = Text.byteLength source ∧ last.span.last = Text.byteLength source ∧
    ∀ t ∈ us, t.kind ≠ .eof
  files : ∀ t ∈ ts, t.span.start.file = file ∧ t.span.stop.file = file
  later : ∀ t ∈ ts, start ≤ t.span.first
  ordered : ts.Pairwise fun t u => t.span.last ≤ u.span.first
  texts : ∀ t ∈ ts, t.kind ≠ .eof → t.span.first < t.span.last ∧
    ∃ text after, Text.Stands source t.span.first t.span.last text after ∧ t.Shows text
  /-- Between two tokens, and before the first one, stands a filler. -/
  gaps : AtEach (fun earlier t => ∃ gap after,
    Text.Stands source (Token.lastOf start earlier) t.span.first gap after ∧ Filler after gap) ts

namespace Lossless

variable {source gap text after rest : List Char} {file : String} {start : Nat} {t : Token}
  {ts : List Token}

theorem singleton (hkind : t.kind = .eof) (hspan : t.span = .point (.atByte file t.span.first))
    (hgap : Text.Stands source start t.span.first gap []) (hfiller : Filler [] gap) :
    Lossless source file start [t] := by
  have hlast : t.span.last = t.span.first := by
    rw [hspan]
    rfl
  have hend : t.span.first = Text.byteLength source := by
    obtain ⟨before, rfl, -, h⟩ := hgap
    rw [← h, List.append_nil]
  constructor
  case ending => exact ⟨[], t, rfl, hkind, hend, hlast.trans hend, nofun⟩
  case files =>
    intro u hu
    rw [List.mem_singleton.1 hu, hspan]
    exact ⟨rfl, rfl⟩
  case later =>
    intro u hu
    rw [List.mem_singleton.1 hu]
    exact hgap.le
  case ordered => exact List.pairwise_singleton _ t
  case texts =>
    intro u hu hne
    exact absurd (List.mem_singleton.1 hu ▸ hkind) hne
  case gaps => exact atEach_singleton.2 ⟨gap, [], hgap, hfiller⟩

theorem cons (hkind : t.kind ≠ .eof) (hfile : t.span.start.file = file ∧ t.span.stop.file = file)
    (hgap : Text.Stands source start t.span.first gap after) (hfiller : Filler after gap)
    (htext : Text.Stands source t.span.first t.span.last text rest) (hne : text ≠ [])
    (hshows : t.Shows text) (h : Lossless source file t.span.last ts) :
    Lossless source file start (t :: ts) := by
  constructor
  case ending =>
    obtain ⟨us, last, rfl, hlast, hfirst, hstop, hus⟩ := h.ending
    exact ⟨t :: us, last, rfl, hlast, hfirst, hstop, List.forall_mem_cons.2 ⟨hkind, hus⟩⟩
  case files => exact List.forall_mem_cons.2 ⟨hfile, h.files⟩
  case later =>
    refine List.forall_mem_cons.2 ⟨hgap.le, fun u hu => ?_⟩
    exact Nat.le_trans hgap.le (Nat.le_trans htext.le (h.later u hu))
  case ordered => exact List.pairwise_cons.2 ⟨h.later, h.ordered⟩
  case texts =>
    refine List.forall_mem_cons.2 ⟨fun _ => ?_, h.texts⟩
    exact ⟨htext.lt hne, text, rest, htext, hshows⟩
  case gaps =>
    refine atEach_cons.2 ⟨⟨gap, after, hgap, hfiller⟩, ?_⟩
    simp only [Token.lastOf_cons]
    exact h.gaps

end Lossless

theorem Laid.lossless {file : String} {offset : Nat} {before cs : List Char} {ts : List Token}
    (h : Laid file offset cs ts) (hoffset : Text.byteLength before = offset)
    (hsize : Text.byteLength (before ++ cs) < 2 ^ 32) : Lossless (before ++ cs) file offset ts := by
  induction h generalizing before with
  | @ending offset last gap hlast hgap =>
    have hend : Text.byteLength (before ++ gap) = last := by
      rw [hlast, ← hoffset, Text.byteLength_append]
    have hfirst : (Token.eofAt (.atByte file last)).span.first = last :=
      Span.first_atBytes (hend ▸ hsize) file last
    refine .singleton rfl ?_ ?_ hgap
    · rw [hfirst]
      rfl
    · rw [hfirst]
      exact ⟨before, by rw [List.append_nil], hoffset, hend⟩
  | @token offset first last gap text rest t ts hfirst hlast hgap hne hkind hspan hshows hrest ih =>
    have hgapEnd : Text.byteLength (before ++ gap) = first := by
      rw [hfirst, ← hoffset, Text.byteLength_append]
    have htextEnd : Text.byteLength (before ++ gap ++ text) = last := by
      rw [hlast, ← hgapEnd, Text.byteLength_append]
    have hsource : before ++ gap ++ text ++ rest = before ++ (gap ++ (text ++ rest)) := by simp
    have hlastSize : last < 2 ^ 32 := by
      rw [← hsource, Text.byteLength_append, htextEnd] at hsize
      omega
    have hspanFirst : t.span.first = first := by
      rw [hspan]
      exact Span.first_atBytes (by omega) file last
    have hspanLast : t.span.last = last := by
      rw [hspan]
      exact Span.last_atBytes hlastSize file first
    have hgapStands : Text.Stands (before ++ (gap ++ (text ++ rest))) offset t.span.first gap
        (text ++ rest) := ⟨before, rfl, hoffset, hgapEnd.trans hspanFirst.symm⟩
    have htextStands : Text.Stands (before ++ (gap ++ (text ++ rest))) t.span.first t.span.last text
        rest := ⟨before ++ gap, (List.append_assoc _ _ _).symm, hgapEnd.trans hspanFirst.symm,
          htextEnd.trans hspanLast.symm⟩
    have hlater := ih htextEnd (by rwa [hsource])
    rw [hsource, ← hspanLast] at hlater
    exact .cons hkind (hspan ▸ ⟨rfl, rfl⟩) hgapStands hgap htextStands hne hshows hlater

/-- A text of fewer than 2³² bytes that has tokens has them with nothing lost. -/
theorem tokenize_lossless {source : String} {fileName : Option String} {ts : List Token}
    (hsize : Text.byteLength source.toList < 2 ^ 32) (h : tokenize source fileName = .ok ts) :
    Lossless source.toList (fileName.getD "shell") 0 ts :=
  (Token.laid_scan h).lossless Text.byteLength_nil hsize

def wideSource : String := "x\u3000\"é\\n\" // ü\n;"

def wideTokens : List Token :=
  [⟨.identifier, "x", .atBytes "shell" 0 1⟩, ⟨.string, "é\n", .atBytes "shell" 4 10⟩,
    ⟨.semicolon, ";", .atBytes "shell" 17 18⟩, .eofAt (.atByte "shell" 18)]

theorem tokenize_lossless_wideSource :
    Text.byteLength wideSource.toList < 2 ^ 32 ∧ tokenize wideSource none = .ok wideTokens ∧
      Lossless wideSource.toList "shell" 0 wideTokens := by
  have hsize : Text.byteLength wideSource.toList < 2 ^ 32 := by decide
  have htokens : tokenize wideSource none = .ok wideTokens := by decide +kernel
  exact ⟨hsize, htokens, tokenize_lossless hsize htokens⟩

end TinyScript
