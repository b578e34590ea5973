import Arrange.Catalog
import Arrange.Proofs.Partition.Stream
import Arrange.Proofs.Text.CodePoint

/-!
# The partitions of a text

A text as a source is read piece by piece: its partitions are the slices of its code points. So a
surrogate pair is never cut apart, neither inside a partition nor between two partitions, and the
pieces joined give the text back, whatever surrogates stand alone in it. Main statement:
`partitions_of_text_join_to_it`.
-/

set_option autoImplicit false

namespace Arrange.Partitioner

variable {ω τ : Type}

/-- The feed that a text is. -/
def textFeed (s : Text) : Feed ω := .fresh (.items (.ofList ((Text.codePoints s).map .text)))

/-- A partitioner of a text can be made with every partition size. -/
theorem make_text (s : Text) {v : Value ω} {size : PartitionSize}
    (hsize : PartitionSize.ofValue v = .ok size) (t : τ) :
    (make v (Feed.ofValue (.text s)) (.ok t) : Except (Fault ω) (Partitioner (Feed ω) τ (Value ω)))
      = .ok (start size (textFeed s) t) := by
  rw [make, hsize]
  rfl

theorem yields_textFeed (s : Text) :
    Feed.source.Yields ((Text.codePoints s).map .text) (textFeed s : Feed ω) :=
  Feed.yields_items _ (.ofList ((Text.codePoints s).map .text)) _ rfl rfl (by simp [Items.ofList])

/-- The partitions handed out so far are the first slices. -/
theorem handedOut_isPrefix_slices {σ α : Type} {src : Source ω σ α} {log : Sink ω τ}
    (hlog : log.NeverFails) {xs : List α} {s : σ} (hsrc : src.Yields xs s) (size : PartitionSize)
    (t : τ) (ops : List Operation) (hops : Operation.stop ∉ ops) :
    handedOut (run src log ops (start size s t)).1 <+: size.slices xs := by
  obtain ⟨hprogress, hslices⟩ := run_progress hlog hsrc size t ops hops
  rw [hslices, ← Nat.min_eq_left hprogress.le_sliceCount, ← List.take_range, List.map_take]
  exact List.take_prefix _ _

/-- What a partitioner of the text `s` hands out: `chunks` are its partitions, and `pieces` are the
texts in them, across all partitions. -/
structure HandsOutText (log : Sink ω τ) (s : Text) (size : PartitionSize)
    (p : Partitioner (Feed ω) τ (Value ω)) (chunks : List (List (Value ω))) (pieces : List Text) :
    Prop where
  /-- A consumer that takes enough partitions is handed these, and then told the end. -/
  collected : ∀ limit, chunks.length < limit →
    ∃ q, collect Feed.source log limit p = (chunks, .exhausted, q)
  /-- Whatever is called before, the first of them were handed out. -/
  handedOut : ∀ ops, Operation.stop ∉ ops → handedOut (run Feed.source log ops p).1 <+: chunks
  elements : chunks.flatten = pieces.map .text
  count : chunks.length = (pieces.length + size.toNat - 1) / size.toNat
  /-- The pieces joined are the text, each is a unit or a surrogate pair, and nowhere do the halves
  of a pair follow one another. -/
  cut : Text.CutInto s pieces
  /-- No other pieces are like this. -/
  unique : ∀ other, Text.CutInto s other → other = pieces

/-- **The partitions of a text hold its code points.** -/
theorem partitions_of_text_join_to_it {log : Sink ω τ} (hlog : log.NeverFails) (s : Text)
    {v : Value ω} {size : PartitionSize} (hsize : PartitionSize.ofValue v = .ok size) (t : τ) :
    ∃ p chunks pieces, make v (Feed.ofValue (.text s)) (.ok t) = .ok p ∧
      HandsOutText log s size p chunks pieces := by
  set pieces := Text.codePoints s with hpieces
  set elements : List (Value ω) := pieces.map .text with helements
  refine ⟨start size (textFeed s) t, size.slices elements, pieces, make_text s hsize t, ?_⟩
  constructor
  · intro limit hlimit
    rw [size.length_slices] at hlimit
    exact collect_start hlog (yields_textFeed s) size t hlimit
  · intro ops hops
    exact handedOut_isPrefix_slices hlog (yields_textFeed s) size t ops hops
  · exact size.flatten_slices_self elements
  · rw [size.length_slices, helements, List.length_map]
    rfl
  · exact (Text.cutInto_iff s pieces).mpr hpieces
  · intro other hother
    exact (Text.cutInto_iff s other).mp hother

/-- Five units under partitions of two: a letter, a surrogate pair, and two surrogates in the wrong
order. The pair is one element, at the end of the first partition. -/
theorem partitions_of_text_join_to_it_with_lone_surrogates :
    let s : Text := [0x61, 0xD83D, 0xDE00, 0xDE00, 0xD83D]
    let size : PartitionSize := ⟨2, by decide⟩
    let chunks : List (List (Value Item)) :=
      [[.text [0x61], .text [0xD83D, 0xDE00]], [.text [0xDE00], .text [0xD83D]]]
    (Sink.discard : Sink Item Unit).NeverFails ∧
      PartitionSize.ofValue (.number 2 : Value Item) = .ok size ∧
      ∃ p pieces, make (.number 2 : Value Item) (Feed.ofValue (.text s)) (.ok ()) = .ok p ∧
        HandsOutText Sink.discard s size p chunks pieces := by
  intro s size chunks
  have hsize : PartitionSize.ofValue (.number 2 : Value Item) = .ok size := rfl
  obtain ⟨p, handed, pieces, hmake, hhands⟩ :=
    partitions_of_text_join_to_it Sink.discard_neverFails s hsize ()
  have hpieces : pieces.length = 4 := by
    rw [(Text.cutInto_iff s pieces).mp hhands.cut]
    rfl
  have hlength : handed.length = 2 := by
    rw [hhands.count, hpieces, show size.toNat = 2 from rfl]
  -- three rounds are enough to be told the end
  obtain ⟨q, hcollect⟩ := hhands.collected 3 (by rw [hlength]; decide)
  have hp : p = start size (textFeed s) () :=
    Except.ok.inj (hmake.symm.trans (make_text s hsize ()))
  have hhanded : handed = chunks := by
    rw [hp] at hcollect
    exact (congrArg Prod.fst hcollect).symm
  exact ⟨Sink.discard_neverFails, hsize, p, pieces, hmake, hhanded ▸ hhands⟩

end Arrange.Partitioner
