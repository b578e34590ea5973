import Arrange.Partition.Visit
import Arrange.Text.CodePoint

/-!
# Feeds

Feeds are the sources at hand: sequences that may grow while they are read, generators, scripts of
prepared answers, and values that cannot be iterated. A feed counts its pulls and closings.
`Layered n` is a feed under `n` partitioners, each of which is the source of the next one.
-/

set_option autoImplicit false

namespace Arrange

variable {ω : Type}

/-! ## Answers -/

/-- What a feed answers to a pull. -/
inductive Reply (ω : Type) where
  /-- An answer that can be read. The feed is at its end when `finished` is `true` and nothing
  else. -/
  | result (finished value : Value ω)
  /-- No answer at all. -/
  | missing
  /-- An answer that cannot be read. -/
  | unreadable

namespace Reply

/-- The reply that a feed gives when it is at its end. -/
def ended : Reply ω := .result (.bool true) .undefined

/-- What a partitioner makes of a reply. -/
def pulled : Reply ω → Pulled (Value ω)
  | .result (.bool true) _ => .finished
  | .result _ value => .element value
  | .missing => .blank
  | .unreadable => .unreadable

end Reply

/-! ## Sequences -/

/-- A sequence read from front to back. Elements added before its end was reported are read too. -/
structure Items (ω : Type) where
  elements : Array (Value ω)
  position : Nat
  ended : Bool
  /-- Whether an element is only added when there is none of the same key. -/
  distinct : Bool

namespace Items

/-- A key as a collection of distinct keys keeps it: 0 in place of -0. -/
def keyOf : Value ω → Value ω
  | .number x => .number (if x == 0 then 0 else x)
  | v => v

/-- A sequence at its front. -/
def ofList (values : List (Value ω)) : Items ω := ⟨values.toArray, 0, false, false⟩

variable [DecidableEq ω]

/-- The values without those whose key occurred before. -/
def distinctValues (values : List (Value ω)) : List (Value ω) :=
  values.foldl (fun kept v => if kept.any (·.sameKey v) then kept else kept ++ [keyOf v]) []

/-- A sequence of distinct keys at its front. -/
def ofDistinct (values : List (Value ω)) : Items ω :=
  ⟨(distinctValues values).toArray, 0, false, true⟩

/-- Puts a pair among pairs: in the place of the one with the same key, else at the end. -/
def putPair (pairs : List (Value ω × Value ω)) (key value : Value ω) :
    List (Value ω × Value ω) :=
  if pairs.any (·.1.sameKey key) then
    pairs.map fun pair => if pair.1.sameKey key then (pair.1, value) else pair
  else pairs ++ [(keyOf key, value)]

/-- The pairs of a mapping, each an array of a key and its last value, in the order in which the
keys first came. -/
def ofPairs (pairs : List (Value ω × Value ω)) : Items ω :=
  ofList ((pairs.foldl (fun known pair => putPair known pair.1 pair.2) []).map
    fun pair => .array 0 [pair.1, pair.2])

/-- The sequence with one more element. -/
def add (items : Items ω) (v : Value ω) : Items ω :=
  if items.distinct then
    if items.elements.any (·.sameKey v) then items
    else { items with elements := items.elements.push (keyOf v) }
  else { items with elements := items.elements.push v }

omit [DecidableEq ω] in
/-- The next element, or the end, which is final. -/
def advance (items : Items ω) : Reply ω × Items ω :=
  if items.ended then (.ended, items)
  else
    match items.elements[items.position]? with
    | some v => (.result (.bool false) v, { items with position := items.position + 1 })
    | none => (.ended, { items with ended := true })

end Items

/-! ## Generators -/

/-- Whether a generator was not pulled yet, stands at an element, or is done for good. -/
inductive Phase where
  | fresh
  | running
  | ended
deriving DecidableEq

/-- A generator: the elements it yields, where it fails, and how it is closed. -/
structure Generator (ω : Type) where
  /-- The element at an index, `none` behind the last one. -/
  yields : Nat → Option (Value ω)
  index : Nat
  /-- The index at which it fails instead of yielding, with the message. -/
  failure? : Option (Nat × Text)
  /-- The message with which its closing fails. -/
  closingFailure? : Option Text
  phase : Phase

namespace Generator

/-- A generator of the elements of a list. -/
def ofList (values : List (Value ω)) (failure? : Option (Nat × Text))
    (closingFailure? : Option Text) : Generator ω :=
  let elements := values.toArray
  ⟨fun i => elements[i]?, 0, failure?, closingFailure?, .fresh⟩

/-- The generator of 1, 2, 3 and so on. -/
def naturals : Generator ω :=
  ⟨fun i => some (.number (Float.ofNat (i + 1))), 0, none, none, .fresh⟩

/-- The outcome of coming to the end, by running out, by failing or by being closed: it is closed,
and a failure of closing takes the place of any other. -/
def settle {β : Type} (g : Generator ω) (outcome : Except (Fault ω) β) :
    Except (Fault ω) β × Generator ω :=
  match g.closingFailure? with
  | some message => (.error (.raised message), { g with phase := .ended })
  | none => (outcome, { g with phase := .ended })

end Generator

/-! ## Scripts -/

/-- One prepared answer of a script. -/
inductive Scripted (ω : Type) where
  | reply (r : Reply ω)
  | fails (message : Text)

/-- What closing a script does. -/
inductive Closing where
  | none
  | succeeds
  | fails (message : Text)

/-- A script: answers given one after another, the answer given ever after, and the closing. -/
structure Script (ω : Type) where
  answers : List (Scripted ω)
  afterwards : Scripted ω
  closing : Closing

/-! ## Feeds -/

/-- The kinds of feeds. -/
inductive FeedKind (ω : Type) where
  | items (i : Items ω)
  | generator (g : Generator ω)
  | script (s : Script ω)
  /-- A value that cannot be pulled. -/
  | stuck

/-- A feed with the counts of its pulls and closings. -/
structure Feed (ω : Type) where
  kind : FeedKind ω
  pulls : Nat
  closings : Nat

namespace Feed

/-- A feed before anything was pulled. -/
def fresh (kind : FeedKind ω) : Feed ω := ⟨kind, 0, 0⟩

/-- The feed that a value is. A text is read by code point and an array by element; other objects
are feeds that cannot be pulled, and the rest are none. -/
def ofValue (v : Value ω) : Except (Fault ω) (Feed ω) :=
  match v with
  | .text t => .ok (fresh (.items (Items.ofList ((Text.codePoints t).map .text))))
  | .array _ xs => .ok (fresh (.items (Items.ofList xs)))
  | .object _ => .ok (fresh .stuck)
  | _ => .error .illTyped

/-- Pulls a generator. Only elements that it yields are counted. -/
def advanceGenerator (g : Generator ω) (feed : Feed ω) : Except (Fault ω) (Reply ω) × Feed ω :=
  let settled (outcome : Except (Fault ω) (Reply ω)) : Except (Fault ω) (Reply ω) × Feed ω :=
    match g.settle outcome with
    | (outcome, g) => (outcome, { feed with kind := .generator g, closings := feed.closings + 1 })
  match g.phase with
  | .ended => (.ok .ended, feed)
  | _ =>
      match g.yields g.index with
      | none => settled (.ok .ended)
      | some v =>
          match g.failure? with
          | some (i, message) =>
              if i = g.index then settled (.error (.raised message)) else yielded v
          | none => yielded v
where
  /-- The element is handed over. -/
  yielded (v : Value ω) : Except (Fault ω) (Reply ω) × Feed ω :=
    (.ok (.result (.bool false) v),
      { feed with
        kind := .generator { g with index := g.index + 1, phase := .running }
        pulls := feed.pulls + 1 })

/-- Pulls a script. Every pull is counted. -/
def advanceScript (s : Script ω) (feed : Feed ω) : Except (Fault ω) (Reply ω) × Feed ω :=
  let (answer, s) :=
    match s.answers with
    | [] => (s.afterwards, s)
    | answer :: rest => (answer, { s with answers := rest })
  let feed := { feed with kind := .script s, pulls := feed.pulls + 1 }
  match answer with
  | .reply r => (.ok r, feed)
  | .fails message => (.error (.raised message), feed)

/-- Pulls a feed. -/
def advance (feed : Feed ω) : Except (Fault ω) (Reply ω) × Feed ω :=
  match feed.kind with
  | .items i =>
      match i.advance with
      | (reply, i) => (.ok reply, { feed with kind := .items i })
  | .generator g => advanceGenerator g feed
  | .script s => advanceScript s feed
  | .stuck => (.error .illTyped, feed)

/-- Closes a generator: one that was pulled settles, one that was not just ends. -/
def closeGenerator (g : Generator ω) (feed : Feed ω) : Except (Fault ω) Unit × Feed ω :=
  match g.phase with
  | .ended => (.ok (), feed)
  | .fresh => (.ok (), { feed with kind := .generator { g with phase := .ended } })
  | .running =>
      match g.settle (.ok ()) with
      | (outcome, g) => (outcome, { feed with kind := .generator g, closings := feed.closings + 1 })

/-- Closes a script, if it can be closed. -/
def closeScript (s : Script ω) (feed : Feed ω) : Except (Fault ω) Unit × Feed ω :=
  match s.closing with
  | .none => (.ok (), feed)
  | .succeeds => (.ok (), { feed with closings := feed.closings + 1 })
  | .fails message => (.error (.raised message), { feed with closings := feed.closings + 1 })

/-- Closes a feed. Sequences and what cannot be pulled have no closing. -/
def close (feed : Feed ω) : Except (Fault ω) Unit × Feed ω :=
  match feed.kind with
  | .items _ => (.ok (), feed)
  | .generator g => closeGenerator g feed
  | .script s => closeScript s feed
  | .stuck => (.ok (), feed)

/-- Feeds as sources. -/
def source : Source ω (Feed ω) (Value ω) where
  pull := fun feed =>
    match feed.advance with
    | (.ok reply, feed) => (.ok reply.pulled, feed)
    | (.error fault, feed) => (.error fault, feed)
  close := close

/-- Adds an element to a sequence; other feeds stay as they are. -/
def add [DecidableEq ω] (v : Value ω) (feed : Feed ω) : Feed ω :=
  match feed.kind with
  | .items i => { feed with kind := .items (i.add v) }
  | _ => feed

end Feed

/-! ## Feeds under partitioners -/

/-- A feed under `n` partitioners. -/
def Layered (ω : Type) : Nat → Type
  | 0 => Feed ω
  | n + 1 => Partitioner (Layered ω n) Unit (Value ω)

namespace Layered

/-- A feed under partitioners as a source; partitions become arrays. -/
def source : (n : Nat) → Source ω (Layered ω n) (Value ω)
  | 0 => Feed.source
  | n + 1 => Partitioner.asSource (source n) Sink.discard (Value.array 0)

/-- One more partitioner on top. -/
def partitioned (n : Nat) (size : Value ω) (inner : Except (Fault ω) (Layered ω n)) :
    Except (Fault ω) (Layered ω (n + 1)) :=
  (Partitioner.make size inner (.ok ()) :
    Except (Fault ω) (Partitioner (Layered ω n) Unit (Value ω)))

/-- The feed below all partitioners. -/
def feed : (n : Nat) → Layered ω n → Feed ω
  | 0, f => f
  | n + 1, (p : Partitioner (Layered ω n) Unit (Value ω)) => feed n (Partitioner.source p)

/-- The same partitioners over a feed that was changed. -/
def mapFeed (change : Feed ω → Feed ω) : (n : Nat) → Layered ω n → Layered ω n
  | 0, f => change f
  | n + 1, (p : Partitioner (Layered ω n) Unit (Value ω)) =>
      ({ p with source := mapFeed change n (Partitioner.source p) } :
        Partitioner (Layered ω n) Unit (Value ω))

end Layered

end Arrange
