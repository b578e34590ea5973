import Arrange.Partition.Visit
import Arrange.Proofs.Partition.Record
import Arrange.Proofs.Partition.Slices

/-!
# Partitions as a stream

`size.slices xs` are all slices of `xs`. A partitioner that has the elements `xs` left is itself a
source of these slices (`yields_asSource`), and a consumer that takes partitions one after another
is handed them all and then told the end (`collect_start`).

Slices of slices are slices: cut into slices of `m` and these into slices of `n`, a list is cut into
slices of `m * n` (`map_flatten_slices`).
-/

set_option autoImplicit false

namespace Arrange

/-! ## All slices of a list -/

namespace PartitionSize

variable {α β : Type}

/-- All slices of a list, in order. -/
def slices (size : PartitionSize) (xs : List α) : List (List α) :=
  (List.range (size.sliceCount xs.length)).map (size.slice xs)

@[simp] theorem length_slices (size : PartitionSize) (xs : List α) :
    (size.slices xs).length = size.sliceCount xs.length := by
  simp [slices]

theorem getElem?_slices (size : PartitionSize) (xs : List α) {k : Nat}
    (h : k < size.sliceCount xs.length) : (size.slices xs)[k]? = some (size.slice xs k) := by
  rw [slices, List.getElem?_map, List.getElem?_range h]
  rfl

theorem sliceCount_zero (size : PartitionSize) : size.sliceCount 0 = 0 := by
  refine Nat.eq_zero_of_not_pos fun h => ?_
  rw [lt_sliceCount_iff] at h
  exact Nat.not_lt_zero _ h

/-- A list with an element has one slice more than it has without its first slice. -/
theorem sliceCount_of_pos (size : PartitionSize) {length : Nat} (h : 0 < length) :
    size.sliceCount length = size.sliceCount (length - size.toNat) + 1 := by
  refine eq_of_forall_lt_iff fun k => ?_
  cases k with
  | zero =>
      rw [lt_sliceCount_iff]
      omega
  | succ k =>
      rw [Nat.succ_lt_succ_iff, lt_sliceCount_iff, lt_sliceCount_iff, Nat.succ_mul]
      omega

@[simp] theorem slices_nil (size : PartitionSize) : size.slices ([] : List α) = [] := by
  rw [slices, List.length_nil, sliceCount_zero]
  rfl

theorem slices_of_ne_nil (size : PartitionSize) {xs : List α} (h : xs ≠ []) :
    size.slices xs = xs.take size.toNat :: size.slices (xs.drop size.toNat) := by
  have hnext (j : Nat) : size.slice xs (j + 1) = size.slice (xs.drop size.toNat) j := by
    rw [slice_eq_take_drop, slice_eq_take_drop, List.drop_drop, Nat.succ_mul, Nat.add_comm]
  have hfirst : size.slice xs 0 = xs.take size.toNat := by
    rw [slice_eq_take_drop, Nat.zero_mul, List.drop_zero]
  rw [slices, slices, size.sliceCount_of_pos (List.length_pos_iff.mpr h), List.range_succ_eq_map,
    List.map_cons, hfirst, List.map_map, List.length_drop]
  exact congrArg _ (List.map_congr_left fun j _ => hnext j)

/-- The slices joined are the list. -/
theorem flatten_slices_self (size : PartitionSize) (xs : List α) :
    (size.slices xs).flatten = xs := by
  rw [slices, flatten_slices, List.take_eq_self_iff, ← Nat.not_lt, ← lt_sliceCount_iff]
  exact Nat.lt_irrefl _

theorem slices_map (size : PartitionSize) (f : α → β) (xs : List α) :
    size.slices (xs.map f) = (size.slices xs).map (List.map f) := by
  rw [slices, slices, List.map_map, List.length_map]
  refine List.map_congr_left fun j _ => ?_
  rw [Function.comp_apply, slice_eq_take_drop, slice_eq_take_drop, List.map_take, List.map_drop]

/-! ## Slices of slices -/

/-- Without its first `k` slices a list is cut as before. -/
theorem drop_slices (size : PartitionSize) (k : Nat) (xs : List α) :
    (size.slices xs).drop k = size.slices (xs.drop (k * size.toNat)) := by
  induction k generalizing xs with
  | zero => simp
  | succ k ih =>
      by_cases h : xs = []
      · simp [h]
      · rw [size.slices_of_ne_nil h, List.drop_succ_cons, ih, List.drop_drop, Nat.succ_mul,
          Nat.add_comm]

/-- The first `k` slices joined are the front of the list. -/
theorem flatten_take_slices (size : PartitionSize) (k : Nat) (xs : List α) :
    ((size.slices xs).take k).flatten = xs.take (k * size.toNat) := by
  induction k generalizing xs with
  | zero => simp
  | succ k ih =>
      by_cases h : xs = []
      · simp [h]
      · rw [size.slices_of_ne_nil h, List.take_succ_cons, List.flatten_cons, ih, Nat.succ_mul,
          Nat.add_comm, List.take_add]

/-- The product of two sizes. -/
instance : Mul PartitionSize where
  mul m n := ⟨m.toNat * n.toNat, Nat.mul_pos m.pos n.pos⟩

/-- Slices of `n` slices of `m`, joined, are the slices of `m * n`. -/
theorem map_flatten_slices (m n : PartitionSize) (xs : List α) :
    (n.slices (m.slices xs)).map List.flatten = (m * n).slices xs := by
  -- one slice of `m * n` less
  induction hlength : xs.length using Nat.strongRecOn generalizing xs with
  | ind length ih =>
      by_cases h : xs = []
      · simp [h]
      · have hslices : m.slices xs ≠ [] := by
          rw [m.slices_of_ne_nil h]
          exact List.cons_ne_nil _ _
        have hshorter : (xs.drop (m * n).toNat).length < length := by
          have hpos := (m * n).pos
          have hne := List.length_pos_iff.mpr h
          rw [List.length_drop]
          omega
        have hproduct : n.toNat * m.toNat = (m * n).toNat := Nat.mul_comm _ _
        rw [n.slices_of_ne_nil hslices, (m * n).slices_of_ne_nil h, List.map_cons,
          flatten_take_slices, drop_slices, hproduct, ih _ hshorter _ rfl]

end PartitionSize

namespace Partitioner

variable {ω σ τ α β : Type}

/-! ## A partitioner as a source -/

section AsSource

variable {src : Source ω σ α} {log : Sink ω τ} {p : Partitioner σ τ α}

/-- What a consumer of the partitions as elements is told for what `next` gives. -/
def pulledChunk (wrap : List α → β) : Option (List α) → Pulled β
  | some chunk => .element (wrap chunk)
  | none => .finished

theorem pull_asSource (wrap : List α → β) {outcome : Except (Fault ω) (Option (List α))}
    {q : Partitioner σ τ α} (h : next src log p = (outcome, q)) :
    (asSource src log wrap).pull p = (outcome.map (pulledChunk wrap), q) := by
  rcases outcome with _ | _ | _ <;> simp [asSource, h, Except.map, pulledChunk]

theorem pull_of_remains_nil (wrap : List α → β) (hlog : log.NeverFails) (h : Remains src p []) :
    ∃ q, (asSource src log wrap).pull p = (.ok .finished, q) ∧ SameCounts p q ∧
      Remains src q [] := by
  obtain ⟨q, hq, hsame, hend⟩ := next_of_remains_nil hlog h
  exact ⟨q, pull_asSource wrap hq, hsame, .ended hend⟩

theorem pull_of_remains_cons (wrap : List α → β) (hlog : log.NeverFails) {a : α} {rest : List α}
    (h : Remains src p (a :: rest)) :
    ∃ q, (asSource src log wrap).pull p
        = (.ok (.element (wrap ((a :: rest).take p.size.toNat))), q) ∧
      q.size = p.size ∧ q.partitions = p.partitions + 1 ∧
      Remains src q ((a :: rest).drop p.size.toNat) := by
  obtain ⟨q, hq, hsize, hpartitions, hrest⟩ := next_of_remains_cons hlog h
  exact ⟨q, pull_asSource wrap hq, hsize, hpartitions, hrest⟩

/-- **A partitioner is a source of the slices of the elements that it has left.** -/
theorem yields_asSource (wrap : List α → β) (hlog : log.NeverFails) {xs : List α}
    (h : Remains src p xs) :
    (asSource src log wrap).Yields ((p.size.slices xs).map wrap) p := by
  induction hlength : xs.length using Nat.strongRecOn generalizing xs p with
  | ind length ih =>
      cases xs with
      | nil =>
          obtain ⟨q, hq, -⟩ := pull_of_remains_nil wrap hlog h
          rw [PartitionSize.slices_nil]
          exact congrArg Prod.fst hq
      | cons a rest =>
          obtain ⟨q, hq, hsize, -, hrest⟩ := pull_of_remains_cons wrap hlog h
          have hshorter : ((a :: rest).drop p.size.toNat).length < length := by
            have hpos := p.size.pos
            rw [List.length_drop, hlength]
            rw [List.length_cons] at hlength
            omega
          have hyields := ih _ hshorter hrest rfl
          rw [hsize] at hyields
          rw [p.size.slices_of_ne_nil (List.cons_ne_nil a rest)]
          exact ⟨q, hq, hyields⟩

/-- A partitioner over a source in another form is a source in another form. -/
theorem carries_asSource {σ' : Type} {f : σ → σ'} {src' : Source ω σ' α}
    (h : Source.Carries f src src') (log : Sink ω τ) (wrap : List α → β) :
    Source.Carries (mapSource f) (asSource src log wrap) (asSource src' log wrap) where
  pull := by
    intro p
    rcases hnext : next src log p with ⟨outcome, q⟩
    have hnext' : next src' log (p.mapSource f) = (outcome, q.mapSource f) := by
      rw [next_mapSource h, hnext]
      rfl
    rw [pull_asSource wrap hnext, pull_asSource wrap hnext']
    rfl
  close := by
    intro p
    show stop src' (p.mapSource f) = Prod.map id (mapSource f) (stop src p)
    cases hend : p.ended with
    | true => simp [stop, mapSource, hend]
    | false =>
        rw [stop_of_open hend, stop_of_open (show (p.mapSource f).ended = false from hend)]
        simp only [mapSource, h.close]
        rfl

/-- A partitioner that has a list left answers every pull. -/
theorem neverFails_asSource (wrap : List α → β) (hlog : log.NeverFails) {xs : List α}
    (h : Remains src p xs) : (asSource src log wrap).NeverFails p := by
  intro n
  induction n generalizing p xs with
  | zero =>
      cases xs with
      | nil =>
          obtain ⟨q, hq, -⟩ := pull_of_remains_nil wrap hlog h
          exact .inr (congrArg Prod.fst hq)
      | cons a rest =>
          obtain ⟨q, hq, -⟩ := pull_of_remains_cons wrap hlog h
          exact .inl ⟨_, congrArg Prod.fst hq⟩
  | succ n ih =>
      rw [Source.after]
      cases xs with
      | nil =>
          obtain ⟨q, hq, -, hrest⟩ := pull_of_remains_nil wrap hlog h
          rw [hq]
          exact ih hrest
      | cons a rest =>
          obtain ⟨q, hq, -, -, hrest⟩ := pull_of_remains_cons wrap hlog h
          rw [hq]
          exact ih hrest

theorem next_of_pull_finished {wrap : List α → β}
    (h : ((asSource src log wrap).pull p).1 = .ok .finished) :
    ∃ q, next src log p = (.ok none, q) := by
  rcases hnext : next src log p with ⟨fault | _ | chunk, q⟩
  · simp [pull_asSource wrap hnext, Except.map] at h
  · exact ⟨q, rfl⟩
  · simp [pull_asSource wrap hnext, Except.map, pulledChunk] at h

theorem next_of_pull_element {chunk : List α} {q : Partitioner σ τ α}
    (h : (asSource src log id).pull p = (.ok (.element chunk), q)) :
    next src log p = (.ok (some chunk), q) := by
  rcases hnext : next src log p with ⟨fault | _ | chunk', q'⟩
  · simp [pull_asSource id hnext, Except.map] at h
  · simp [pull_asSource id hnext, Except.map, pulledChunk] at h
  · simpa [pull_asSource id hnext, Except.map, pulledChunk] using h

/-- A consumer that takes enough partitions is handed all of them, and told the end. -/
theorem collect_of_yields {chunks : List (List α)} {limit : Nat}
    (h : (asSource src log id).Yields chunks p) (hlimit : chunks.length < limit) :
    ∃ q, collect src log limit p = (chunks, .exhausted, q) := by
  induction limit generalizing chunks p with
  | zero => exact absurd hlimit (Nat.not_lt_zero _)
  | succ limit ih =>
      cases chunks with
      | nil =>
          obtain ⟨q, hnext⟩ := next_of_pull_finished h
          exact ⟨q, by simp [collect, hnext]⟩
      | cons chunk rest =>
          obtain ⟨q, hpull, hrest⟩ := h
          have hnext := next_of_pull_element hpull
          obtain ⟨r, hr⟩ := ih hrest (Nat.lt_of_succ_lt_succ hlimit)
          exact ⟨r, by simp [collect, hnext, hr]⟩

/-- From the start these are the slices of the elements of the source. -/
theorem collect_start (hlog : log.NeverFails) {xs : List α} {s : σ} (hsrc : src.Yields xs s)
    (size : PartitionSize) (t : τ) {limit : Nat} (hlimit : size.sliceCount xs.length < limit) :
    ∃ q, collect src log limit (start size s t) = (size.slices xs, .exhausted, q) := by
  have hyields : (asSource src log id).Yields ((size.slices xs).map id) (start size s t) :=
    yields_asSource id hlog (.start hsrc size t)
  rw [List.map_id] at hyields
  exact collect_of_yields hyields (by rwa [PartitionSize.length_slices])

end AsSource

end Partitioner

end Arrange
