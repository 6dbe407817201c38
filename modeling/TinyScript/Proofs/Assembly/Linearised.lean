import TinyScript.Proofs.Assembly.Made
import TinyScript.Proofs.Stream.Arranged

/-! Building a program from its events in any bottom-up order. While the events come, what has been
completed and not yet claimed is waiting, and the open blocks have those of their statements that
are complete. The last event then finds all it names. -/

namespace TinyScript

open Assembly

namespace Construct

variable {t c c' s : Construct} {es before after : List Event} {e : Event}

/-- An open block is that of a construct whose end is to come, and has the statements that are
complete. -/
def Filled (t : Construct) (before : List Event) (b : OpenBlock) : Prop :=
  ∃ lastDepth statements, block b.id b.depth lastDepth statements ∈ t.subs ∧
    ⟨b.id, lastDepth, .exitBlock⟩ ∉ before ∧
    List.Forall₂ Writes (statements.filter fun s => s.last ∈ before)
      (b.statements.map fun s => .statement s.unscoped)

theorem Filled.concat {b : OpenBlock} (hb : Filled t before b)
    (hexit : ∀ d, (⟨b.id, d, .exitBlock⟩ : Event) ≠ e)
    (hlast : ∀ lastDepth statements, block b.id b.depth lastDepth statements ∈ t.subs →
      ∀ s ∈ statements, s.last ≠ e) : Filled t (before ++ [e]) b := by
  obtain ⟨lastDepth, statements, hmem, hopen, hstatements⟩ := hb
  refine ⟨lastDepth, statements, hmem, ?_, ?_⟩
  · simpa [hexit] using hopen
  · have hsame : (statements.filter fun s => s.last ∈ before ++ [e]) =
        statements.filter fun s => s.last ∈ before := by
      refine List.filter_congr fun s hs => ?_
      simp [hlast lastDepth statements hmem s hs]
    rwa [hsame]

theorem Filled.push {b : OpenBlock} {id depth lastDepth : Nat} {statements : List Construct}
    {stmt : Stmt} (hb : Filled t before b) (h : t.Arranges (before ++ e :: after))
    (hblock : block id depth lastDepth statements ∈ t.subs) (hid : b.id = id) (hs : s ∈ statements)
    (he : s.last = e) (hwrites : s.Writes (.statement stmt.unscoped))
    (hexit : e.kind ≠ .exitBlock) : Filled t (before ++ [e]) (b.push stmt) := by
  obtain ⟨lastDepth', statements', hmem, hopen, hstatements⟩ := hb
  injection h.eq_of_id hmem hblock hid with _ _ _ hsame
  subst hsame
  refine ⟨lastDepth', statements', hmem, ?_, ?_⟩
  · rw [List.mem_append, List.mem_singleton]
    rintro (hbefore | hlast)
    · exact hopen hbefore
    · exact hexit (hlast ▸ rfl)
  · rw [h.complete_of_statement hblock hs he, OpenBlock.push, List.map_append]
    exact List.rel_append hstatements (.cons hwrites .nil)

/-- An assembly is where it should be after a part of the events of a construct. -/
structure Follows (t : Construct) (before : List Event) (a : Assembly) : Prop where
  waiting : ∀ c ∈ t.subs, ∀ part ∈ c.claimed, part.last ∈ before → c.last ∉ before →
    ∃ m, part.Writes m ∧ a.Holds part.id m
  openIds : a.openIds = openBlocks before
  blocks : ∀ b ∈ a.blocks, Filled t before b

theorem follows_nil (t : Construct) : Follows t [] {} where
  waiting _ _ _ _ h := by cases h
  openIds := rfl
  blocks _ h := by cases h

def Spares (t : Construct) (before : List Event) (e : Event) (a b : Assembly) : Prop :=
  ∀ c ∈ t.subs, ∀ part ∈ c.claimed, part.last ∈ before → c.last ≠ e →
    ∀ m, a.Holds part.id m → b.Holds part.id m

namespace Follows

variable {p : Program} {a b : Assembly} {id depth lastDepth : Nat} {statements : List Construct}

theorem concat (ha : Follows t before a)
    (hnew : ∀ c ∈ t.subs, ∀ part ∈ c.claimed, part.last = e →
      ∃ m, part.Writes m ∧ b.Holds part.id m)
    (hspares : Spares t before e a b)
    (hopen : b.openIds = e.openAfter a.openIds)
    (hblocks : ∀ block ∈ b.blocks, Filled t (before ++ [e]) block) :
    Follows t (before ++ [e]) b := by
  constructor
  · intro c hc part hpart hbefore hclaim
    rw [List.mem_append, List.mem_singleton] at hbefore hclaim
    rw [not_or] at hclaim
    rcases hbefore with hbefore | he
    · obtain ⟨m, hm, hwaits⟩ := ha.waiting c hc part hpart hbefore hclaim.1
      exact ⟨m, hm, hspares c hc part hpart hbefore hclaim.2 m hwaits⟩
    · exact hnew c hc part hpart he
  · rw [openBlocks_concat, hopen, ha.openIds]
  · exact hblocks

theorem enter (hp : t.Presents p) (h : t.Arranges (before ++ e :: after))
    (he : e = ⟨id, depth, .enterBlock⟩) (hblock : block id depth lastDepth statements ∈ t.subs)
    (ha : Follows t before a) : Follows t (before ++ [e]) (a.opened id depth) := by
  have hlast : ∀ c ∈ t.subs, c.last ≠ e := by
    intro c hc hce
    apply hp.class?_ne_none hc
    rw [hce, he]
    rfl
  apply ha.concat
  · intro c hc part hpart hce
    exact absurd hce (hlast part (claimed_mem_subs hc hpart))
  · exact fun _ _ _ _ _ _ _ hwaits => hwaits
  · rw [he]
    rfl
  · intro b hb
    rcases List.mem_cons.1 hb with rfl | hb
    · obtain ⟨hnone, hexit⟩ := h.complete_of_enter hblock he
      refine ⟨lastDepth, statements, hblock, hexit, ?_⟩
      rw [hnone]
      exact .nil
    · refine (ha.blocks b hb).concat (by simp [he]) fun lastDepth' statements' hmem s hs => ?_
      exact hlast s (child_mem_subs hmem hs)

theorem innermost (h : t.Arranges (before ++ e :: after)) (ha : Follows t before a)
    (hinner : (openBlocks before).head? = some id) :
    ∃ b bs, a.blocks = b :: bs ∧ b.id = id ∧ ∀ b' ∈ bs, b'.id ≠ id := by
  have hnodup := h.nodup_openBlocks (List.prefix_append before (e :: after))
  rw [← ha.openIds, Assembly.openIds] at hinner hnodup
  cases hb : a.blocks with
  | nil => simp [hb] at hinner
  | cons b bs =>
    have hid : b.id = id := by simpa [hb] using hinner
    refine ⟨b, bs, rfl, hid, fun b' hb' hid' => ?_⟩
    rw [hb, List.map_cons, List.nodup_cons, hid, ← hid'] at hnodup
    exact hnodup.1 (List.mem_map_of_mem hb')

theorem exit (hp : t.Presents p) (h : t.Arranges (before ++ e :: after))
    (he : e = ⟨id, lastDepth, .exitBlock⟩) (hblock : block id depth lastDepth statements ∈ t.subs)
    (hinner : (openBlocks before).head? = some id) (ha : Follows t before a) :
    ∃ b, outcome (handle e) a = (.ok (), b) ∧ Follows t (before ++ [e]) b := by
  obtain ⟨b, bs, hb, hid, hothers⟩ := ha.innermost h hinner
  obtain ⟨lastDepth', statements', hmem, -, hstatements⟩ := ha.blocks b (by simp [hb])
  have hsame := h.eq_of_id hmem hblock hid
  injection hsame with _ hdepth hlast hstatements'
  subst hlast hstatements'
  rw [h.complete_of_exit hblock he] at hstatements
  subst hid
  have hclose : outcome (handle e) a = outcome (closeBlock b.id) a := by
    rw [he]
    rfl
  refine ⟨_, hclose.trans (outcome_closeBlock hb), ?_⟩
  apply ha.concat
  · intro c hc part hpart hpe
    have hpartMem := claimed_mem_subs hc hpart
    obtain rfl : part = block b.id depth lastDepth' statements' :=
      h.eq_of_last hpartMem hblock (hpe.trans he)
    refine ⟨.block (.mk depth ⟨0⟩ (b.statements.map Stmt.unscoped)), .block ?_, .block b.close, ?_,
      ?_⟩
    · simpa using hstatements
    · rw [Keyed.get?_insert]
      exact if_pos rfl
    · simp [Node.unscoped, OpenBlock.close, Block.unscoped, Stmt.unscopedAll_eq_map, hdepth]
  · intro c hc part hpart hbefore _ m hwaits
    have hpartMem := claimed_mem_subs hc hpart
    have hne := h.id_ne_of_complete hblock he.symm hpartMem hbefore
    exact Holds.stored (a := { a with blocks := bs }) hwaits hne (.block b.close)
  · simp [Assembly.openIds, hb, he, Event.openAfter]
  · intro b' hb'
    refine (ha.blocks b' (by simp [hb, hb'])).concat (fun d hd => ?_) fun _ _ hmem' s hs hse => ?_
    · rw [he, Event.mk.injEq] at hd
      exact hothers b' hb' hd.1
    · have hclass := hp.class?_statement hmem' hs
      rw [hse, he] at hclass
      cases hclass

theorem forall₂_holds (h : t.Arranges (before ++ e :: after)) {all parts : List Construct}
    {ms : List Node} (hc : whole e all ∈ t.subs) (hall : parts ⊆ all)
    (hparts : List.Forall₂ Writes parts ms) (ha : Follows t before a) :
    List.Forall₂ a.Holds (parts.map Construct.id) ms := by
  have hwaits : ∀ part ∈ parts, ∃ m, part.Writes m ∧ a.Holds part.id m := by
    intro part hmem
    have hpart := hall hmem
    have hin : ([part.last] ++ [e]).Sublist (before ++ e :: after) := (h.inPlace _ hc part hpart).1
    have hbefore := (parted_of_sublist hin h.nodup).1.subset List.mem_cons_self
    have hclaim : e ∉ before := fun hmem =>
      List.disjoint_of_nodup_append h.nodup hmem List.mem_cons_self
    exact ha.waiting _ hc part hpart hbefore hclaim
  refine List.forall₂_map_left_iff.2 (((List.forall₂_and_left _ _).2 ⟨hwaits, hparts⟩).imp ?_)
  rintro part m ⟨⟨m', hm', hwait⟩, hm⟩
  rwa [hm.unique hm']

theorem spares_stored (h : t.Arranges (before ++ e :: after)) {parts : List Construct}
    (hc : whole e parts ∈ t.subs) (k : Nat) (n : Node) :
    Spares t before e a
      (((a.withoutAll (parts.map Construct.id)).withScopes k).stored e.id n) := by
  intro c hc' part hpart hbefore hlast m hwait
  have hchild := c.claimed_subset_children hpart
  have hpartMem := child_mem_subs hc' hchild
  have hclaimed : part.id ∉ parts.map Construct.id := by
    intro hmem
    obtain ⟨part', hpart', hid⟩ := List.mem_map.1 hmem
    obtain rfl := h.eq_of_id (child_mem_subs hc hpart') hpartMem hid
    obtain rfl := h.parent_unique hc hc' hpart' hchild
    exact hlast rfl
  have hkept : ((a.withoutAll (parts.map Construct.id)).withScopes k).Holds part.id m :=
    hwait.withoutAll hclaimed
  exact hkept.stored (h.id_ne_of_complete hc rfl hpartMem hbefore) n

section Made

variable {parts : List Construct} {ms : List Node} {n : Node}

theorem stored_waiting (h : t.Arranges (before ++ e :: after)) (ha : Follows t before a)
    (hc : whole e parts ∈ t.subs) (hn : (whole e parts).Writes n.unscoped)
    (hmakes : e.Makes ms n.unscoped) {event : Event} {siblings : List Construct}
    (hparent : whole event siblings ∈ t.subs) (hpart : whole e parts ∈ siblings)
    (hblocks : b.blocks = a.blocks) (hspares : Spares t before e a (b.stored e.id n)) :
    Follows t (before ++ [e]) (b.stored e.id n) := by
  have hempty : n.construct = .statement → b.blocks = [] := by
    intro hstatement
    have hclass := hn.class?_eq
    rw [Node.construct_unscoped, hstatement] at hclass
    have hinner := (h.inPlace _ hparent _ hpart).2 hclass before e after rfl rfl
    rw [← ha.openIds] at hinner
    simpa [Assembly.openIds, hblocks] using hinner
  rw [stored_eq_of_waits hempty] at hspares ⊢
  apply ha.concat
  · intro c hc' part hpart' hlast
    have hpartMem := claimed_mem_subs hc' hpart'
    obtain rfl : part = whole e parts := h.eq_of_last hpartMem hc hlast
    refine ⟨n.unscoped, hn, n, ?_, rfl⟩
    rw [Keyed.get?_insert]
    exact if_pos rfl
  · exact hspares
  · rw [hmakes.openAfter_eq]
    exact congrArg (List.map OpenBlock.id) hblocks
  · intro block hblock
    have hold := ha.blocks block (hblocks ▸ hblock)
    refine hold.concat (fun d hd => ?_) fun _ _ hmem s hs hlast => ?_
    · exact hmakes.kind_ne_exitBlock (hd ▸ rfl)
    · obtain rfl : s = whole e parts := h.eq_of_last (child_mem_subs hmem hs) hc hlast
      cases h.parent_unique hmem hparent hs hpart

theorem stored_in_block (hp : t.Presents p) (h : t.Arranges (before ++ e :: after))
    (ha : Follows t before a) (hc : whole e parts ∈ t.subs) (hn : (whole e parts).Writes n.unscoped)
    (hmakes : e.Makes ms n.unscoped) (hparent : block id depth lastDepth statements ∈ t.subs)
    (hpart : whole e parts ∈ statements) (hblocks : b.blocks = a.blocks)
    (hspares : Spares t before e a (b.stored e.id n)) :
    Follows t (before ++ [e]) (b.stored e.id n) := by
  have hinner := (h.inPlace _ hparent).2 _ hpart before e after rfl rfl
  obtain ⟨inner, others, hopen, hid, hothers⟩ := ha.innermost h hinner
  have hclass := hn.class?_eq
  rw [hp.class?_statement hparent hpart, Node.construct_unscoped] at hclass
  cases n with
  | statement stmt =>
    have hstored : b.stored e.id (.statement stmt) =
        { b with blocks := inner.push stmt :: others } := by
      simp [Assembly.stored, hblocks, hopen]
    have hids : (b.stored e.id (.statement stmt)).openIds = e.openAfter a.openIds := by
      rw [openIds_stored, hmakes.openAfter_eq]
      exact congrArg (List.map OpenBlock.id) hblocks
    apply ha.concat _ hspares hids
    · intro block' hblock'
      rw [hstored] at hblock'
      rcases List.mem_cons.1 hblock' with rfl | hblock'
      · have hfilled := ha.blocks inner (by simp [hopen])
        exact hfilled.push h hparent hid hpart rfl hn hmakes.kind_ne_exitBlock
      · have hold := ha.blocks block' (by simp [hopen, hblock'])
        refine hold.concat (fun d hd => ?_) fun _ _ hmem s hs hlast => ?_
        · exact hmakes.kind_ne_exitBlock (hd ▸ rfl)
        · obtain rfl : s = whole e parts := h.eq_of_last (child_mem_subs hmem hs) hc hlast
          injection h.parent_unique hmem hparent hs hpart with hid'
          exact hothers block' hblock' hid'
    · intro c hc' part hpart' hlast
      have hchild := c.claimed_subset_children hpart'
      obtain rfl : part = whole e parts := h.eq_of_last (child_mem_subs hc' hchild) hc hlast
      obtain rfl := h.parent_unique hc' hparent hchild hpart
      cases hpart'
  | _ => cases hclass

end Made

theorem complete (hp : t.Presents p) (h : t.Arranges (before ++ e :: after))
    {parts : List Construct} (hc : whole e parts ∈ t.subs) (hne : whole e parts ≠ t)
    (ha : Follows t before a) :
    ∃ b, outcome (handle e) a = (.ok (), b) ∧ Follows t (before ++ [e]) b := by
  obtain ⟨m, hm⟩ := hp.writes hc hne
  have hwrites := hm
  cases hm with
  | @whole _ _ ms _ hnamed hparts hmakes =>
    have hnodup : e.named.Nodup := hnamed ▸ h.nodup_children_id hc
    have hwaits : List.Forall₂ a.Holds e.named ms :=
      hnamed ▸ ha.forall₂_holds h hc (List.Subset.refl parts) hparts
    obtain ⟨n, k, rfl, hdone⟩ := hmakes.completes hwaits hnodup
    have hspares := spares_stored (a := a) h hc k n
    rw [← hnamed] at hspares
    refine ⟨_, hdone, ?_⟩
    obtain ⟨parent, hparent, hchild⟩ := exists_parent hc hne
    cases parent with
    | whole event siblings => exact ha.stored_waiting h hc hwrites hmakes hparent hchild rfl hspares
    | block id depth lastDepth statements =>
      exact ha.stored_in_block hp h hc hwrites hmakes hparent hchild rfl hspares

theorem step (hp : t.Presents p) (h : t.Arranges (before ++ e :: after))
    (hnested : Nested (before ++ e :: after)) (hne : e ≠ t.last) (ha : Follows t before a) :
    ∃ b, outcome (handle e) a = (.ok (), b) ∧ Follows t (before ++ [e]) b := by
  obtain ⟨c, hc, he⟩ := h.mem_iff.1 (List.mem_append_right before List.mem_cons_self)
  cases c with
  | whole event parts =>
    obtain rfl := List.mem_singleton.1 he
    refine ha.complete hp h hc ?_
    rintro rfl
    exact hne rfl
  | block id depth lastDepth statements =>
    simp only [own, List.mem_cons, List.not_mem_nil, or_false] at he
    rcases he with he | he
    · refine ⟨a.opened id depth, ?_, ha.enter hp h he hc⟩
      rw [he]
      rfl
    · refine ha.exit hp h he hc ?_
      have hinner := hnested before e after rfl
      rw [he] at hinner
      exact hinner rfl

theorem run (hp : t.Presents p) (h : t.Arranges es) (hnested : Nested es)
    (hes : es = before ++ after) (hlast : t.last ∉ before) :
    ∃ a, acceptAll {} before = .ok a ∧ Follows t before a := by
  induction before using List.reverseRecOn generalizing after with
  | nil => exact ⟨{}, rfl, follows_nil t⟩
  | append_singleton before e ih =>
    rw [List.mem_append, List.mem_singleton, not_or] at hlast
    rw [List.append_assoc, List.singleton_append] at hes
    obtain ⟨a, hrun, ha⟩ := ih hes hlast.1
    subst hes
    obtain ⟨b, hdone, hb⟩ := ha.step hp h hnested (Ne.symm hlast.2)
    exact ⟨b, acceptAll_concat hrun hdone, hb⟩

theorem blocks_eq_nil (hp : t.Presents p) (h : t.Arranges (before ++ [t.last]))
    (ha : Follows t before a) : a.blocks = [] := by
  refine List.eq_nil_iff_forall_not_mem.2 fun b hb => ?_
  obtain ⟨lastDepth, statements, hmem, hexit, -⟩ := ha.blocks b hb
  have hes : ⟨b.id, lastDepth, .exitBlock⟩ ∈ before ++ [t.last] :=
    h.mem_iff.2 ⟨_, hmem, last_mem_own _⟩
  rw [List.mem_append, List.mem_singleton] at hes
  cases hp with
  | program => cases hes.resolve_left hexit

end Follows

end Construct

/-- The events of a program build the program, in whatever bottom-up order they come. -/
theorem ofEvents_of_linearises {es : List Event} {p : Program} (h : Linearises es p) :
    ∃ q, Program.ofEvents es = .ok q ∧ q.unscoped = p.unscoped := by
  obtain ⟨t, hp, harranges, hnested⟩ := h
  obtain ⟨before, rfl⟩ := List.getLast?_eq_some_iff.1 harranges.ending
  have hlast : t.last ∉ before := fun hmem =>
    List.disjoint_of_nodup_append harranges.nodup hmem List.mem_cons_self
  obtain ⟨a, hrun, ha⟩ := Construct.Follows.run hp harranges hnested rfl hlast
  have hblocks := ha.blocks_eq_nil hp harranges
  have hroot := t.mem_subs_self
  generalize p.unscoped = q at hp ⊢
  cases hp with
  | @program number depth statements functions ss fs hstatements hfunctions =>
    have hids := harranges.nodup_children_id hroot
    rw [Construct.children, List.map_append] at hids
    obtain ⟨l, hl, rfl, hss⟩ := exists_entries Stmt.unscoped Node.unscoped_eq_statement
      (ha.forall₂_holds harranges hroot (List.subset_append_left ..) hstatements)
    obtain ⟨l', hl', rfl, hfs⟩ := exists_entries Function.unscoped Node.unscoped_eq_function
      (ha.forall₂_holds harranges hroot (List.subset_append_right ..) hfunctions)
    have hbuild := outcome_buildProgram depth l l' (by rwa [hl, hl']) hss hfs
    rw [hl, hl'] at hbuild
    exact ⟨_, Program.ofEvents_of_acceptAll (acceptAll_concat hrun hbuild) hblocks rfl, rfl⟩

def textAssigned : Construct :=
  .whole ⟨6, 1, .assignment 4 2⟩ [.whole ⟨4, 1, .var ⟨.identifier, "x", default⟩⟩ [],
    .whole ⟨2, 1, .expr 8⟩ [.whole ⟨8, 3, .literal ⟨.string, "", default⟩⟩ []]]

def brokenOff : Construct :=
  .whole ⟨1, 3, .loop 7 3⟩ [.whole ⟨7, 3, .var ⟨.identifier, "n", default⟩⟩ [],
    .block 3 4 4 [.whole ⟨5, 5, .brk⟩ []]]

def looping : Construct :=
  .whole ⟨11, 1, .function ⟨.identifier, "f", default⟩ [(⟨.identifier, "n", default⟩, none)] none 9⟩
    [.block 9 2 2 [brokenOff]]

def shuffledEvents : List Event :=
  let name (s : String) : Token := ⟨.identifier, s, default⟩
  [⟨9, 2, .enterBlock⟩, ⟨4, 1, .var (name "x")⟩, ⟨7, 3, .var (name "n")⟩, ⟨3, 4, .enterBlock⟩,
    ⟨8, 3, .literal ⟨.string, "", default⟩⟩, ⟨5, 5, .brk⟩, ⟨3, 4, .exitBlock⟩, ⟨1, 3, .loop 7 3⟩,
    ⟨9, 2, .exitBlock⟩, ⟨2, 1, .expr 8⟩, ⟨6, 1, .assignment 4 2⟩,
    ⟨11, 1, .function (name "f") [(name "n", none)] none 9⟩, ⟨10, 0, .program [6] [11]⟩]

def shuffledProgram : Program where
  statements := [.assign 1 (.var (.untyped 1) "x") (.ofLiteral 1 (.str ""))]
  functions :=
    [{ name := "f", parameters := [⟨"n", .unknown⟩], returnType := .unknown, depth := 1,
       scope := ⟨2⟩
       body := .mk 2 ⟨0⟩ [.loop 3 (.var (.untyped 3) "n") (.mk 4 ⟨1⟩ [.brk 5])] }]
  depth := 0
  scope := ⟨3⟩

theorem presents_shuffledProgram : Construct.Presents
    (.whole ⟨10, 0, .program [6] [11]⟩ [textAssigned, looping]) shuffledProgram.unscoped := by
  have hassigned : textAssigned.Writes
      (.statement (.assign 1 (.var (.untyped 1) "x") (.ofLiteral 1 (.str "")))) :=
    .whole rfl (.cons (.whole rfl .nil (.var rfl)) (.cons (.whole rfl
      (.cons (.whole rfl .nil (.literal rfl (.str rfl))) .nil) (.expr rfl)) .nil)) (.assignment rfl)
  have hinner : Construct.Writes (.block 3 4 4 [.whole ⟨5, 5, .brk⟩ []])
      (.block (.mk 4 ⟨0⟩ [.brk 5])) := .block (.cons (.whole rfl .nil (.brk rfl)) .nil)
  have hloop : brokenOff.Writes
      (.statement (.loop 3 (.var (.untyped 3) "n") (.mk 4 ⟨0⟩ [.brk 5]))) :=
    .whole rfl (.cons (.whole rfl .nil (.var rfl)) (.cons hinner .nil)) (.loop rfl)
  have hbody : Construct.Writes (.block 9 2 2 [brokenOff]) (.block (.mk 2 ⟨0⟩ [_])) :=
    .block (.cons hloop .nil)
  have hlooping : looping.Writes _ := .whole rfl (.cons hbody .nil) (.function rfl)
  exact @Construct.Presents.program 10 0 [textAssigned] [looping]
    shuffledProgram.unscoped.statements shuffledProgram.unscoped.functions (.cons hassigned .nil)
    (.cons hlooping .nil)

theorem shuffledEvents_build : Linearises shuffledEvents shuffledProgram ∧
    ∃ q, Program.ofEvents shuffledEvents = .ok q ∧ q.unscoped = shuffledProgram.unscoped := by
  have hlinear : Linearises shuffledEvents shuffledProgram :=
    ⟨_, presents_shuffledProgram, by decide +kernel, by decide +kernel⟩
  exact ⟨hlinear, ofEvents_of_linearises hlinear⟩

def emptyFunction (id : Serial) (name : String) (body : Serial) (depth lastDepth : Nat) :
    Construct :=
  .whole ⟨id, 1, .function ⟨.identifier, name, default⟩ [] none body⟩
    [.block body depth lastDepth []]

theorem writes_emptyFunction (id : Serial) (name : String) (body : Serial) (depth lastDepth : Nat) :
    (emptyFunction id name body depth lastDepth).Writes
      (.function ⟨name, [], .unknown, .mk depth ⟨0⟩ [], 1, ⟨0⟩⟩) := by
  have hbody : Construct.Writes (.block body depth lastDepth []) (.block (.mk depth ⟨0⟩ [])) :=
    @Construct.Writes.block body depth lastDepth [] [] .nil
  have hmakes := @Event.Makes.function ⟨id, 1, .function ⟨.identifier, name, default⟩ [] none body⟩
    _ _ _ _ (.mk depth ⟨0⟩ []) rfl
  exact .whole rfl (.cons hbody .nil) hmakes

def crossed : Construct :=
  .whole ⟨4, 0, .program [] [2, 3]⟩ [emptyFunction 2 "f" 0 2 2, emptyFunction 3 "g" 1 2 2]

def crossedProgram : Program where
  statements := []
  functions :=
    [⟨"f", [], .unknown, .mk 2 ⟨0⟩ [], 1, ⟨1⟩⟩, ⟨"g", [], .unknown, .mk 2 ⟨2⟩ [], 1, ⟨3⟩⟩]
  depth := 0
  scope := ⟨4⟩

def crossedEvents : List Event :=
  [⟨0, 2, .enterBlock⟩, ⟨1, 2, .enterBlock⟩, ⟨0, 2, .exitBlock⟩, ⟨1, 2, .exitBlock⟩,
    (emptyFunction 2 "f" 0 2 2).last, (emptyFunction 3 "g" 1 2 2).last, crossed.last]

mutual

/-- The construct with every block at the depth of its last event. -/
def Construct.atLastDepth : Construct → Construct
  | .whole event parts => .whole event (Construct.atLastDepthAll parts)
  | .block id _ lastDepth statements =>
    .block id lastDepth lastDepth (Construct.atLastDepthAll statements)

def Construct.atLastDepthAll : List Construct → List Construct
  | [] => []
  | c :: cs => c.atLastDepth :: Construct.atLastDepthAll cs

end

def uneven : Construct := .whole ⟨2, 0, .program [] [1]⟩ [emptyFunction 1 "f" 0 7 2]

def unevenProgram : Program where
  statements := []
  functions := [⟨"f", [], .unknown, .mk 2 ⟨0⟩ [], 1, ⟨1⟩⟩]
  depth := 0
  scope := ⟨2⟩

def unevenEvents : List Event :=
  [⟨0, 7, .enterBlock⟩, ⟨0, 2, .exitBlock⟩, (emptyFunction 1 "f" 0 7 2).last, uneven.last]

/-- Nesting is needed: events in a bottom-up order with crossed blocks build nothing. And a block has
the depth of its first event: where that of its last one is another, what is built is not the program
with every depth as on the last event. -/
theorem crossed_or_uneven_blocks :
    (crossed.Presents crossedProgram.unscoped ∧ crossed.Arranges crossedEvents ∧
      Program.ofEvents crossedEvents = .error (.error (.detached (.unbalancedBlock 0)))) ∧
    uneven.atLastDepth.Presents unevenProgram.unscoped ∧ uneven.Arranges unevenEvents ∧
      Nested unevenEvents ∧
      Program.ofEvents unevenEvents =
        .ok ⟨[], [⟨"f", [], .unknown, .mk 7 ⟨0⟩ [], 1, ⟨1⟩⟩], 0, ⟨2⟩⟩ ∧
      ∀ q, Program.ofEvents unevenEvents = .ok q → q.unscoped ≠ unevenProgram.unscoped := by
  have hcrossed : crossed.Presents crossedProgram.unscoped :=
    @Construct.Presents.program 4 0 [] _ [] crossedProgram.unscoped.functions .nil
      (.cons (writes_emptyFunction 2 "f" 0 2 2) (.cons (writes_emptyFunction 3 "g" 1 2 2) .nil))
  have huneven : uneven.atLastDepth.Presents unevenProgram.unscoped :=
    @Construct.Presents.program 2 0 [] _ [] unevenProgram.unscoped.functions .nil
      (.cons (writes_emptyFunction 1 "f" 0 2 2) .nil)
  have hbuilt : Program.ofEvents unevenEvents =
      .ok ⟨[], [⟨"f", [], .unknown, .mk 7 ⟨0⟩ [], 1, ⟨1⟩⟩], 0, ⟨2⟩⟩ := rfl
  refine ⟨⟨hcrossed, by decide +kernel, rfl⟩, huneven, by decide +kernel, by decide +kernel, hbuilt,
    fun q hq => ?_⟩
  obtain rfl := Except.ok.inj (hbuilt.symm.trans hq)
  decide

end TinyScript
