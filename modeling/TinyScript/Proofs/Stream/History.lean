import TinyScript.Proofs.Assembly.Claims
import TinyScript.Proofs.Stream.Arranged

/-! Streams told with what came of each event. A history says of every event which piece it
completed; `Tells` says that the pieces are what the events make of those that wait for them, where
a piece waits from the latest event to produce its number until an event names the number. Numbers
can be used again, so a block is told by the place where it began. -/

namespace TinyScript

def Event.placesAfter (e : Event) (place : Nat) (places : List Nat) : List Nat :=
  match e.kind with
  | .enterBlock => place :: places
  | .exitBlock => places.tail
  | _ => places

/-- The places in a stream where its open blocks began, innermost first. -/
def openPlaces (es : List Event) : List Nat :=
  es.zipIdx.foldl (fun places x => x.1.placesAfter x.2 places) []

theorem openPlaces_concat (es : List Event) (e : Event) :
    openPlaces (es ++ [e]) = e.placesAfter es.length (openPlaces es) := by
  simp [openPlaces, List.zipIdx_append]

theorem openPlaces_ordered (es : List Event) :
    (openPlaces es).Pairwise (· > ·) ∧ ∀ place ∈ openPlaces es, place < es.length := by
  induction es using List.reverseRecOn with
  | nil => exact ⟨.nil, by simp [openPlaces]⟩
  | append_singleton es e ih =>
    obtain ⟨hpairs, hbound⟩ := ih
    have hlonger : ∀ place ∈ openPlaces es, place < (es ++ [e]).length := fun place h => by
      rw [List.length_append]
      exact Nat.lt_add_right _ (hbound place h)
    rw [openPlaces_concat, Event.placesAfter]
    split
    · exact ⟨List.pairwise_cons.2 ⟨hbound, hpairs⟩, List.forall_mem_cons.2 ⟨by simp, hlonger⟩⟩
    · exact ⟨hpairs.tail, fun place h => hlonger place (List.mem_of_mem_tail h)⟩
    · exact ⟨hpairs, hlonger⟩

structure Entry where
  event : Event
  piece : Option Node := none

def Entry.statement? (x : Entry) : Option Stmt :=
  match x.piece with
  | some (.statement s) => some s
  | _ => none

abbrev History := List Entry

namespace History

def events (h : History) : List Event := h.map Entry.event

@[simp] theorem events_append (h h' : History) : (h ++ h').events = h.events ++ h'.events :=
  List.map_append

@[simp] theorem events_singleton (x : Entry) : events [x] = [x.event] := rfl

@[simp] theorem length_events (h : History) : h.events.length = h.length := List.length_map _

/-- The statements completed in a history that goes on from the events `before`, each while the
block that began at `place` was the innermost one. -/
def statementsFrom (place : Nat) (before : List Event) : History → List Stmt
  | [] => []
  | x :: xs =>
    (if (openPlaces before).head? = some place then x.statement?.toList else []) ++
      statementsFrom place (before ++ [x.event]) xs

def statementsIn (h : History) (place : Nat) : List Stmt := statementsFrom place [] h

theorem statementsFrom_append (place : Nat) (before : List Event) (h h' : History) :
    statementsFrom place before (h ++ h') =
      statementsFrom place before h ++ statementsFrom place (before ++ h.events) h' := by
  induction h generalizing before with
  | nil => simp [statementsFrom, events]
  | cons x h ih => simp [statementsFrom, events, ih]

theorem statementsIn_concat (h : History) (x : Entry) (place : Nat) :
    (h ++ [x]).statementsIn place = h.statementsIn place ++
      if (openPlaces h.events).head? = some place then x.statement?.toList else [] := by
  simp [statementsIn, statementsFrom_append, statementsFrom]

theorem head?_openPlaces_ne (h : History) {place : Nat} (hplace : h.length ≤ place) :
    (openPlaces h.events).head? ≠ some place := by
  intro hhead
  have hlt := (openPlaces_ordered h.events).2 place (List.mem_of_head? hhead)
  rw [length_events] at hlt
  omega

theorem statementsIn_eq_nil (h : History) {place : Nat} (hplace : h.length ≤ place) :
    h.statementsIn place = [] := by
  induction h using List.reverseRecOn with
  | nil => rfl
  | append_singleton h x ih =>
    rw [List.length_append] at hplace
    have hle : h.length ≤ place := by omega
    rw [statementsIn_concat, ih hle, if_neg (head?_openPlaces_ne h hle)]
    rfl

/-- A piece waits as a part of the class asked for: the latest event to produce its number made it,
and no event since has named the number. -/
def Waits (h : History) (part : Serial × ConstructClass) (n : Node) : Prop :=
  ∃ before x after, h = before ++ x :: after ∧ x.event.id = part.1 ∧
    x.event.kind.class? = some part.2 ∧ x.piece = some n ∧
    x.event.isPart (openBlocks (events before)) ∧
    part.1 ∉ partIds (openBlocks (events (before ++ [x]))) (events after) ∧
    ∀ y ∈ after, part.1 ∉ y.event.named

theorem waits_concat (h : History) {x : Entry} {cls : ConstructClass} {n : Node}
    (hclass : x.event.kind.class? = some cls) (hpiece : x.piece = some n)
    (hpart : x.event.isPart (openBlocks h.events)) : (h ++ [x]).Waits (x.event.id, cls) n :=
  ⟨h, x, [], rfl, rfl, hclass, hpiece, hpart, by simp [events, partIds], by simp⟩

theorem Waits.concat {h : History} {part : Serial × ConstructClass} {n : Node}
    (hwaits : h.Waits part n) {x : Entry} (hnamed : part.1 ∉ x.event.named)
    (hpart : x.event.isPart (openBlocks h.events) → x.event.id ≠ part.1) :
    (h ++ [x]).Waits part n := by
  obtain ⟨before, y, after, rfl, hid, hclass, hpiece, hproduced, hlatest, hunclaimed⟩ := hwaits
  refine ⟨before, y, after ++ [x], by simp, hid, hclass, hpiece, hproduced, ?_, ?_⟩
  · have hopen : openFrom (openBlocks (events (before ++ [y]))) (events after) =
        openBlocks (events (before ++ y :: after)) := by
      rw [openBlocks, openBlocks, ← openFrom, ← openFrom, ← openFrom_append, ← events_append,
        List.append_assoc]
      rfl
    rw [events_append after, events_singleton, partIds_append, hopen, List.mem_append, not_or]
    refine ⟨hlatest, ?_⟩
    generalize openBlocks (events (before ++ y :: after)) = ids at hpart ⊢
    by_cases hx : x.event.isPart ids
    · simpa [partIds, hx] using (hpart hx).symm
    · simp [partIds, hx]
  · rintro z hz
    rcases List.mem_append.1 hz with hz | hz
    · exact hunclaimed z hz
    · obtain rfl := List.mem_singleton.1 hz
      exact hnamed

end History

/-- What comes of an event, made of the pieces `ns` that it names. A block has the statements
completed while it was the innermost one. -/
inductive Entry.Comes (before : History) (ns : List Node) : Entry → Prop
  | enter {id depth : Nat} : Comes before ns ⟨⟨id, depth, .enterBlock⟩, none⟩
  | exit {id depth lastDepth place : Nat} (scope : Scope)
    (hinner : (openPlaces before.events).head? = some place)
    (hplace : before[place]? = some ⟨⟨id, depth, .enterBlock⟩, none⟩) :
    Comes before ns ⟨⟨id, lastDepth, .exitBlock⟩,
      some (.block (.mk depth scope (before.statementsIn place)))⟩
  | program {id depth : Nat} {statements functions : List Serial} :
    Comes before ns ⟨⟨id, depth, .program statements functions⟩, none⟩
  | made {e : Event} {n : Node} (h : e.Makes ns n.beforeScope) : Comes before ns ⟨e, some n⟩

/-- All that an event names waits for it, each part in its class and named once, and the event makes
of the parts what came of it. -/
structure Entry.Explained (before : History) (x : Entry) : Prop where
  once : x.event.named.Nodup
  comes : ∃ ns, List.Forall₂ before.Waits x.event.kind.parts.flatten ns ∧ x.Comes before ns

namespace History

/-- A program is that of the last event of a program: it has the pieces that this event names. -/
def Concludes (h : History) (p : Program) : Prop :=
  ∃ before last after statements functions, h = before ++ last :: after ∧
    last.event.kind = .program statements functions ∧
    (∀ x ∈ after, x.event.kind.class? ≠ some .program) ∧ p.depth = last.event.depth ∧
    List.Forall₂ (Waits before) (statements.map (·, .statement)) (p.statements.map .statement) ∧
    List.Forall₂ (Waits before) (functions.map (·, .function)) (p.functions.map .function)

structure Tells (h : History) (p : Program) : Prop where
  nested : Nested h.events
  closed : openBlocks h.events = []
  explained : AtEach Entry.Explained h
  program : h.Concludes p

end History

end TinyScript
