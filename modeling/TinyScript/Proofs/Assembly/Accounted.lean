import TinyScript.Proofs.Stream.History

/-! Only well-formed streams are built into programs. Whatever the events are, as long as they are
taken there is a history that tells what came of each: what waits was produced by the latest event
of its number and not named since, and an open block has the statements completed while it was the
innermost one. -/

namespace TinyScript

open Assembly

theorem Event.Makes.placesAfter_eq {e : Event} {ns : List Node} {n : Node} (h : e.Makes ns n)
    (place : Nat) (places : List Nat) : e.placesAfter place places = places := by
  cases h <;> simp [*, Event.placesAfter]

theorem Event.Makes.class?_ne_program {e : Event} {ns : List Node} {n : Node} (h : e.Makes ns n) :
    e.kind.class? ≠ some .program := by
  rw [h.class?_eq]
  cases n <;> simp [Node.construct]

theorem nested_concat {es : List Event} {e : Event} :
    Nested (es ++ [e]) ↔
      Nested es ∧ (e.kind = .exitBlock → (openBlocks es).head? = some e.id) := by
  rw [Nested, atEach_append, atEach_singleton, List.append_nil, Nested]

theorem Assembly.get?_stored {a : Assembly} {e : Event} {n : Node}
    (hclass : e.kind.class? = some n.construct) (id : Serial) :
    (a.stored e.id n).pending.get? id =
      if e.isPart a.openIds ∧ id = e.id then some n else a.pending.get? id := by
  obtain ⟨pending, blocks, program, nextScope⟩ := a
  cases n with
  | statement s =>
    cases blocks with
    | nil => simp [stored, Event.isPart, hclass, Node.construct, openIds, Keyed.get?_insert]
    | cons b bs => simp [stored, Event.isPart, hclass, Node.construct, openIds]
  | _ => simp [stored, Event.isPart, hclass, Node.construct, Keyed.get?_insert]

theorem Assembly.program_stored (a : Assembly) (id : Serial) (n : Node) :
    (a.stored id n).program = a.program := by
  obtain ⟨pending, blocks, program, nextScope⟩ := a
  cases n with
  | statement s => cases blocks <;> rfl
  | _ => rfl

namespace History

variable {h : History} {x : Entry} {a b c : Assembly}

def Opened (h : History) (place : Nat) (b : OpenBlock) : Prop :=
  h[place]? = some ⟨⟨b.id, b.depth, .enterBlock⟩, none⟩ ∧ b.statements = h.statementsIn place

namespace Opened

variable {place : Nat} {block : OpenBlock}

theorem getElem?_concat (ho : h.Opened place block) (x : Entry) :
    (h ++ [x])[place]? = some ⟨⟨block.id, block.depth, .enterBlock⟩, none⟩ := by
  rw [List.getElem?_append_left (List.getElem?_eq_some_iff.1 ho.1).1]
  exact ho.1

theorem concat (ho : h.Opened place block)
    (hx : (openPlaces h.events).head? = some place → x.statement? = none) :
    Opened (h ++ [x]) place block := by
  refine ⟨ho.getElem?_concat x, ?_⟩
  rw [statementsIn_concat, ho.2]
  split
  · next hinner => simp [hx hinner]
  · simp

theorem push {s : Stmt} (ho : h.Opened place block)
    (hinner : (openPlaces h.events).head? = some place) (hs : x.statement? = some s) :
    Opened (h ++ [x]) place (block.push s) := by
  refine ⟨ho.getElem?_concat x, ?_⟩
  rw [statementsIn_concat, if_pos hinner, hs, ← ho.2]
  rfl

end Opened

theorem forall₂_outer_concat {place : Nat} {places : List Nat} {outer : List OpenBlock}
    (hplaces : openPlaces h.events = place :: places) (houter : List.Forall₂ h.Opened places outer)
    (hne : ∀ place' ∈ places, place' ≠ place) :
    List.Forall₂ (Opened (h ++ [x])) places outer := by
  refine ((List.forall₂_and_left _ _).2 ⟨hne, houter⟩).imp fun place' block hopened => ?_
  refine hopened.2.concat fun hinner => absurd ?_ hopened.1
  rw [hplaces] at hinner
  exact (Option.some.inj hinner).symm

structure Reaches (h : History) (a : Assembly) : Prop where
  pending : ∀ id n, a.pending.get? id = some n → h.Waits (id, n.construct) n
  blocks : List.Forall₂ h.Opened (openPlaces h.events) a.blocks
  openIds : a.openIds = openBlocks h.events
  nested : Nested h.events
  explained : AtEach Entry.Explained h
  program : ∀ p, a.program = some p → h.Concludes p

theorem reaches_nil : Reaches [] {} where
  pending _ _ hn := by cases hn
  blocks := .nil
  openIds := rfl
  nested := .nil
  explained := .nil
  program _ hp := by cases hp

namespace Reaches

variable (hh : h.Reaches a)

include hh

theorem waits {parts : List (Serial × ConstructClass)} {ns : List Node}
    (hclaims : Claims a parts ns b) : List.Forall₂ h.Waits parts ns := by
  refine hclaims.offers.imp fun part n hoffer => ?_
  have hwaits := hh.pending part.1 n hoffer.1
  rwa [hoffer.2] at hwaits

theorem pending_concat (hclass : ∀ n, x.piece = some n → x.event.kind.class? = some n.construct)
    (hget : ∀ id n, b.pending.get? id = some n →
      if x.event.isPart (openBlocks h.events) ∧ id = x.event.id then x.piece = some n
      else id ∉ x.event.named ∧ a.pending.get? id = some n) :
    ∀ id n, b.pending.get? id = some n → Waits (h ++ [x]) (id, n.construct) n := by
  intro id n hn
  have hcases := hget id n hn
  split at hcases
  · next hnew =>
    obtain ⟨hpart, rfl⟩ := hnew
    exact waits_concat h (hclass n hcases) hcases hpart
  · next hold =>
    refine (hh.pending id n hcases.2).concat hcases.1 fun hpart hid => ?_
    exact hold ⟨hpart, hid.symm⟩

theorem explained_concat {ns : List Node} (hclaims : Claims a x.event.kind.parts.flatten ns b)
    (hcomes : x.Comes h ns) : AtEach Entry.Explained (h ++ [x]) := by
  refine atEach_append.2 ⟨hh.explained, atEach_singleton.2 ?_⟩
  rw [List.append_nil]
  exact ⟨hclaims.nodup, ns, hh.waits hclaims, hcomes⟩

theorem program_concat (hkind : x.event.kind.class? ≠ some .program) (hp : b.program = a.program) :
    ∀ p, b.program = some p → Concludes (h ++ [x]) p := by
  intro p hprogram
  obtain ⟨before, last, after, ss, fs, rfl, hlast, hafter, hpieces⟩ :=
    hh.program p (hp.symm.trans hprogram)
  refine ⟨before, last, after ++ [x], ss, fs, by simp, hlast, fun y hy => ?_, hpieces⟩
  rcases List.mem_append.1 hy with hy | hy
  · exact hafter y hy
  · obtain rfl := List.mem_singleton.1 hy
    exact hkind

theorem exists_place {block : OpenBlock} {outer : List OpenBlock} (hb : a.blocks = block :: outer) :
    ∃ place places, openPlaces h.events = place :: places ∧ h.Opened place block ∧
      List.Forall₂ h.Opened places outer ∧ ∀ place' ∈ places, place' ≠ place := by
  have hblocks := hh.blocks
  rw [hb] at hblocks
  obtain ⟨place, places, hfirst, hrest, hplaces⟩ := List.forall₂_cons_right_iff.1 hblocks
  have hpairs := (openPlaces_ordered h.events).1
  rw [hplaces] at hpairs
  exact ⟨place, places, hplaces, hfirst, hrest, fun place' hmem =>
    Nat.ne_of_lt ((List.pairwise_cons.1 hpairs).1 place' hmem)⟩

theorem blocks_stored {n : Node} (hx : x.piece = some n) (hb : b.blocks = a.blocks) (id : Serial) :
    List.Forall₂ (Opened (h ++ [x])) (openPlaces h.events) (b.stored id n).blocks := by
  cases n with
  | statement s =>
    have hs : x.statement? = some s := by rw [Entry.statement?, hx]
    cases hblocks : a.blocks with
    | nil =>
      have hnone : (b.stored id (.statement s)).blocks = [] := by simp [stored, hb, hblocks]
      have hplaces := hh.blocks
      rw [hblocks, List.forall₂_nil_right_iff] at hplaces
      rw [hnone, hplaces]
      exact .nil
    | cons block outer =>
      have hpush : (b.stored id (.statement s)).blocks = block.push s :: outer := by
        simp [stored, hb, hblocks]
      obtain ⟨place, places, hplaces, hfirst, hrest, hne⟩ := hh.exists_place hblocks
      have hinner : (openPlaces h.events).head? = some place := by rw [hplaces]; rfl
      rw [hpush, hplaces]
      exact .cons (hfirst.push hinner hs) (forall₂_outer_concat hplaces hrest hne)
  | _ =>
    have hs : x.statement? = none := by rw [Entry.statement?, hx]
    have hsame : b.blocks = a.blocks := hb
    exact hsame ▸ hh.blocks.imp fun _ _ hopened => hopened.concat fun _ => hs

theorem made {e : Event} {ns : List Node} {n : Node} (k : Nat)
    (hclaims : Claims a e.kind.parts.flatten ns b) (hmakes : e.Makes ns n.beforeScope) :
    Reaches (h ++ [⟨e, some n⟩]) ((b.withScopes k).stored e.id n) := by
  have hclass : e.kind.class? = some n.construct := by
    rw [hmakes.class?_eq, Node.construct_beforeScope]
  have hblocks : (b.withScopes k).blocks = a.blocks := hclaims.blocks_eq
  have hopen : (b.withScopes k).openIds = openBlocks h.events := by
    rw [← hh.openIds, Assembly.openIds, hblocks]
    rfl
  have hprogram : ((b.withScopes k).stored e.id n).program = a.program := by
    rw [program_stored]
    exact hclaims.program_eq
  constructor
  · apply hh.pending_concat
    · rintro _ ⟨⟩
      exact hclass
    · intro id m hm
      rw [get?_stored hclass, hopen] at hm
      split at hm
      · next hnew =>
        rw [if_pos hnew]
        exact hm
      · next hold =>
        rw [if_neg hold]
        exact hclaims.of_get? hm
  · rw [events_append, events_singleton, openPlaces_concat, hmakes.placesAfter_eq]
    exact hh.blocks_stored rfl hblocks e.id
  · rw [openIds_stored, hopen, events_append, events_singleton, openBlocks_concat,
      hmakes.openAfter_eq]
  · rw [events_append, events_singleton, nested_concat]
    exact ⟨hh.nested, fun hkind => absurd hkind hmakes.kind_ne_exitBlock⟩
  · exact hh.explained_concat hclaims (.made hmakes)
  · exact hh.program_concat hmakes.class?_ne_program hprogram

theorem enter (id depth : Nat) :
    Reaches (h ++ [⟨⟨id, depth, .enterBlock⟩, none⟩]) (a.opened id depth) := by
  constructor
  · apply hh.pending_concat
    · rintro _ ⟨⟩
    · intro id' n hn
      exact ⟨by simp [Event.named, EventKind.parts], hn⟩
  · rw [events_append, events_singleton, openPlaces_concat, length_events]
    refine .cons ⟨?_, ?_⟩ (hh.blocks.imp fun _ _ hopened => hopened.concat fun _ => rfl)
    · exact List.getElem?_concat_length
    · rw [statementsIn_concat, statementsIn_eq_nil h (Nat.le_refl _)]
      simp [Entry.statement?]
  · rw [events_append, events_singleton, openBlocks_concat, ← hh.openIds]
    rfl
  · rw [events_append, events_singleton, nested_concat]
    exact ⟨hh.nested, fun hkind => by cases hkind⟩
  · exact hh.explained_concat (.nil a) .enter
  · exact hh.program_concat (by simp [EventKind.class?]) rfl

theorem exit {block : OpenBlock} {outer : List OpenBlock} (hb : a.blocks = block :: outer)
    (d : Nat) :
    Reaches (h ++ [⟨⟨block.id, d, .exitBlock⟩, some (.block block.close)⟩])
      { a with blocks := outer, pending := a.pending.insert block.id (.block block.close) } := by
  obtain ⟨place, places, hplaces, hfirst, hrest, hne⟩ := hh.exists_place hb
  have hclose : block.close = .mk block.depth block.scope (h.statementsIn place) := by
    rw [OpenBlock.close, hfirst.2]
  have hinner : (openPlaces h.events).head? = some place := by rw [hplaces]; rfl
  have hids : openBlocks h.events = block.id :: outer.map OpenBlock.id := by
    rw [← hh.openIds, Assembly.openIds, hb, List.map_cons]
  constructor
  · apply hh.pending_concat
    · rintro _ ⟨⟩
      rfl
    · intro id n hn
      rw [Keyed.get?_insert] at hn
      split at hn
      · next hid => exact (if_pos ⟨rfl, hid⟩).mpr hn
      · next hid =>
        exact (if_neg fun hnew => hid hnew.2).mpr ⟨by simp [Event.named, EventKind.parts], hn⟩
  · rw [events_append, events_singleton, openPlaces_concat, hplaces]
    exact forall₂_outer_concat hplaces hrest hne
  · rw [events_append, events_singleton, openBlocks_concat, hids]
    rfl
  · rw [events_append, events_singleton, nested_concat, hids]
    exact ⟨hh.nested, fun _ => rfl⟩
  · refine hh.explained_concat (.nil a) ?_
    rw [hclose]
    exact .exit block.scope hinner hfirst.1
  · exact hh.program_concat (by simp [EventKind.class?]) rfl

theorem conclude {id d : Nat} {statements functions : List Serial} {ss : List Stmt}
    {fs : List Function} (scope : Scope)
    (hss : Claims (a.withScopes 1) (statements.map (·, .statement)) (ss.map .statement) b)
    (hfs : Claims b (functions.map (·, .function)) (fs.map .function) c) :
    Reaches (h ++ [⟨⟨id, d, .program statements functions⟩, none⟩])
      { c with program := some ⟨ss, fs, d, scope⟩ } := by
  have hscopes : h.Reaches (a.withScopes 1) :=
    ⟨hh.pending, hh.blocks, hh.openIds, hh.nested, hh.explained, hh.program⟩
  have hclaims : Claims (a.withScopes 1) (EventKind.program statements functions).parts.flatten
      (ss.map .statement ++ fs.map .function) c := by
    simpa [EventKind.parts] using hss.append hfs
  -- the functions are still there after the statements have been claimed
  have hfunctions : List.Forall₂ h.Waits (functions.map (·, .function)) (fs.map .function) := by
    refine hfs.offers.imp fun part n hoffer => ?_
    have hwaits := hscopes.pending part.1 n (hss.of_get? hoffer.1).2
    rwa [hoffer.2] at hwaits
  constructor
  · apply hscopes.pending_concat
    · rintro _ ⟨⟩
    · intro id' n hn
      exact hclaims.of_get? hn
  · rw [events_append, events_singleton, openPlaces_concat]
    change List.Forall₂ _ _ c.blocks
    rw [hclaims.blocks_eq]
    exact hscopes.blocks.imp fun _ _ hopened => hopened.concat fun _ => rfl
  · rw [events_append, events_singleton, openBlocks_concat]
    change c.blocks.map OpenBlock.id = openBlocks h.events
    rw [hclaims.blocks_eq]
    exact hscopes.openIds
  · rw [events_append, events_singleton, nested_concat]
    exact ⟨hh.nested, fun hkind => by cases hkind⟩
  · exact hscopes.explained_concat hclaims .program
  · rintro _ ⟨⟩
    exact ⟨h, _, [], statements, functions, rfl, rfl, by simp, rfl, hscopes.waits hss, hfunctions⟩

theorem step {e : Event} (hb : outcome (handle e) a = (.ok (), b)) :
    ∃ piece, Reaches (h ++ [⟨e, piece⟩]) b := by
  cases taken_of_handle hb with
  | enter => exact ⟨none, hh.enter _ _⟩
  | exit hblocks => exact ⟨_, hh.exit hblocks _⟩
  | program hss hfs => exact ⟨none, hh.conclude _ hss hfs⟩
  | made hclaims hmakes => exact ⟨_, hh.made _ hclaims hmakes⟩

theorem run {es : List Event} (hb : a.acceptAll es = .ok b) :
    ∃ h' : History, h'.events = h.events ++ es ∧ h'.Reaches b := by
  induction es generalizing a h with
  | nil =>
    obtain rfl := Except.ok.inj hb
    exact ⟨h, by simp, hh⟩
  | cons e es ih =>
    obtain ⟨c, hc, hb⟩ := Assembly.exists_of_acceptAll_cons hb
    obtain ⟨piece, hstep⟩ := hh.step hc
    obtain ⟨h', hevents, hh'⟩ := ih hstep hb
    exact ⟨h', by simp [hevents], hh'⟩

end Reaches

end History

/-- A stream that a program is built from has a history: its blocks are nested and closed, every
part that an event names is a piece of the right class, produced last by an earlier event of that
number and not named since, each block has the statements completed while it was the innermost one,
and the program is that of the last event of a program. -/
theorem exists_history_of_ofEvents {es : List Event} {p : Program}
    (h : Program.ofEvents es = .ok p) : ∃ history : History, history.events = es ∧
      history.Tells p := by
  obtain ⟨a, ha, hblocks, hp⟩ := Program.exists_assembly_of_ofEvents h
  obtain ⟨history, hevents, hreaches⟩ := History.reaches_nil.run ha
  have hclosed := hreaches.openIds
  rw [Assembly.openIds, hblocks] at hclosed
  exact ⟨history, hevents, hreaches.nested, hclosed.symm, hreaches.explained,
    hreaches.program p hp⟩

/-- A stream in which numbers are used again: two blocks are open under one number, the inner one is
claimed before the outer one is closed, the function takes over the number of its body, a first
program comes while blocks are open, and some pieces are left over. -/
def reusedNumbers : List Event :=
  let name (s : String) : Token := ⟨.identifier, s, default⟩
  [⟨0, 2, .enterBlock⟩, ⟨5, 3, .brk⟩, ⟨0, 4, .enterBlock⟩, ⟨5, 5, .cont⟩, ⟨9, 0, .program [] []⟩,
    ⟨0, 4, .exitBlock⟩, ⟨1, 3, .var (name "x")⟩, ⟨5, 3, .loop 1 0⟩, ⟨0, 2, .exitBlock⟩,
    ⟨0, 1, .function (name "f") [] none 0⟩, ⟨7, 1, .var (name "y")⟩, ⟨2, 1, .brk⟩,
    ⟨2, 1, .ret 7⟩, ⟨0, 0, .program [2] [0]⟩, ⟨2, 1, .cont⟩]

def reusedProgram : Program where
  statements := [.ret 1 (.var (.untyped 1) "y")]
  functions :=
    [{ name := "f", parameters := [], returnType := .unknown, depth := 1, scope := ⟨3⟩
       body := .mk 2 ⟨0⟩ [.brk 3, .loop 3 (.var (.untyped 3) "x") (.mk 4 ⟨1⟩ [.cont 5])] }]
  depth := 0
  scope := ⟨4⟩

theorem exists_history_of_reusedNumbers : Program.ofEvents reusedNumbers = .ok reusedProgram ∧
    ∃ history : History, history.events = reusedNumbers ∧ history.Tells reusedProgram := by
  have hevents : Program.ofEvents reusedNumbers = .ok reusedProgram := by decide +kernel
  exact ⟨hevents, exists_history_of_ofEvents hevents⟩

end TinyScript
