import FilterTree.Proofs.Bodies
import FilterTree.Proofs.Extends

/-!
# How far a cancelled body has filled an array

The body that fills an array goes from chunk to chunk, and the only thing that can
change while it does is whether the run has been cancelled. So the row it works on
is at every time the value up to some place and the old elements from there on
(`filledTo`), and one chunk moves the place to the end of that chunk or leaves it
where it is. It is left for the first time when the run has been cancelled, and a
cancelled run stays so. Hence the place is the end of some chunk, and the end of the
row if the run was not cancelled; a run that was cancelled before the first chunk
has filled nothing.

The last message is sent after the last chunk. A receiver that cancels upon it gets
a row that is full and a body that says it was cancelled.
-/

namespace FilterTree

namespace Builtin.CreateArray

variable {α : Type} {value : α} {row : Array α}

/-! ## The row -/

/-- A row whose elements up to a place are all one value. -/
def filledTo (value : α) (m : Nat) (row : Array α) : Array α :=
  .replicate m value ++ row.extract m row.size

theorem size_filledTo {m : Nat} (hm : m ≤ row.size) : (filledTo value m row).size = row.size := by
  rw [filledTo, Array.size_append, Array.size_replicate, Array.size_extract]
  omega

theorem getElem_filledTo {m i : Nat} (hi : i < (filledTo value m row).size)
    (hrow : i < row.size) : (filledTo value m row)[i] = if i < m then value else row[i] := by
  simp only [filledTo, Array.getElem_append, Array.size_replicate, Array.getElem_replicate,
    Array.getElem_extract]
  split
  · rfl
  · congr 1
    omega

theorem filledTo_zero : filledTo value 0 row = row := by
  simp [filledTo]

/-- Filling from a place up to another one, where everything before the first is full. -/
theorem modifyRow_filledTo {start stop : Nat} (hle : min start row.size ≤ stop)
    (hstop : stop ≤ row.size) :
    DenseStore.modifyRow (fun _ => value) start stop (filledTo value (min start row.size) row) =
      filledTo value stop row := by
  have hsize : (filledTo value (min start row.size) row).size = row.size :=
    size_filledTo (by omega)
  refine Array.ext ?_ fun i hi hi' => ?_
  · rw [DenseStore.size_modifyRow, hsize, size_filledTo hstop]
  · have hrow : i < row.size := by
      rwa [size_filledTo hstop] at hi'
    simp only [DenseStore.modifyRow, Array.getElem_mapIdx]
    rw [getElem_filledTo (by omega) hrow, getElem_filledTo hi' hrow]
    by_cases hbefore : i < stop
    · by_cases hafter : start ≤ i
      · rw [if_pos ⟨hafter, hbefore⟩, if_pos hbefore]
      · rw [if_neg (by omega), if_pos (by omega), if_pos hbefore]
    · rw [if_neg (by omega), if_neg (by omega), if_neg hbefore]

/-! ## Chunk after chunk -/

/-- What has become of a row when so many chunks were looked at. -/
structure Filled (value : α) (row : Array α) (run : Run) (chunks : Nat) (row' : Array α)
    (run' : Run) (m : Nat) : Prop where
  row_eq : row' = filledTo value m row
  whole : m = row.size ∨ chunkSize ∣ m ∧ m < row.size
  reached : run'.cancelled = false → m = min (chunks * chunkSize) row.size
  untouched : run.cancelled = true → m = 0
  continues : run.Continues run'

namespace Filled

variable {run run' : Run} {chunks m : Nat} {row' : Array α} {counter : Counter}

theorem zero : Filled value row run 0 row run 0 where
  row_eq := filledTo_zero.symm
  whole := by
    rcases Nat.eq_zero_or_pos row.size with h | h
    · exact .inl h.symm
    · exact .inr ⟨Nat.dvd_zero _, h⟩
  reached := fun _ => by rw [Nat.zero_mul, Nat.zero_min]
  untouched := fun _ => rfl
  continues := .refl

/-- One chunk: a cancelled run leaves everything, another one fills up to its end. -/
theorem succ (h : Filled value row run chunks row' run' m) :
    ∃ m', Filled value row run (chunks + 1)
      (fillChunk value (row', counter, run') (chunks * chunkSize)).1
      (fillChunk value (row', counter, run') (chunks * chunkSize)).2.2 m' := by
  rw [fillChunk]
  by_cases hcancelled : run'.cancelled = true
  · rw [if_pos hcancelled]
    refine ⟨m, h.row_eq, h.whole, fun hlive => ?_, h.untouched, h.continues⟩
    rw [hcancelled] at hlive
    cases hlive
  · rw [if_neg hcancelled]
    have hm := h.reached (Bool.eq_false_iff.mpr hcancelled)
    have hend : (chunks + 1) * chunkSize = chunks * chunkSize + chunkSize := Nat.succ_mul ..
    have hsize : row'.size = row.size := by
      rw [h.row_eq, size_filledTo (by omega)]
    refine ⟨min ((chunks + 1) * chunkSize) row.size, ?_, ?_, fun _ => rfl, fun hstart => ?_,
      h.continues.trans Counter.advance_continues⟩
    · show DenseStore.modifyRow _ _ (min (chunks * chunkSize + chunkSize) row'.size) row' = _
      rw [hsize, h.row_eq, hm, ← hend]
      exact modifyRow_filledTo (by omega) (by omega)
    · by_cases hfull : row.size ≤ (chunks + 1) * chunkSize
      · exact .inl (min_eq_right hfull)
      · rw [min_eq_left (by omega)]
        exact .inr ⟨Nat.dvd_mul_left .., by omega⟩
    · exact absurd (h.continues.cancelled hstart) hcancelled

theorem foldl (chunks : Nat) : ∃ m, Filled value row run chunks
    (((List.range chunks).map (· * chunkSize)).foldl (fillChunk value) (row, counter, run)).1
    (((List.range chunks).map (· * chunkSize)).foldl (fillChunk value) (row, counter, run)).2.2
    m := by
  induction chunks with
  | zero => exact ⟨0, zero⟩
  | succ chunks ih =>
      obtain ⟨m, hm⟩ := ih
      rw [List.range_succ, List.map_append, List.foldl_append]
      exact hm.succ

end Filled

theorem le_chunks (n : Nat) : n ≤ (n + chunkSize - 1) / chunkSize * chunkSize := by
  have hpos : 0 < chunkSize := by decide
  have hlt := Nat.lt_div_mul_add (a := n + chunkSize - 1) hpos
  omega

theorem fillRow_filled {run run' : Run} {row' : Array α}
    (h : fillRow value row run = (row', run')) :
    ∃ m, Filled value row run ((row.size + chunkSize - 1) / chunkSize) row' run' m := by
  obtain ⟨m, hm⟩ := @Filled.foldl α value row run (.new "Initializing array" row.size)
    ((row.size + chunkSize - 1) / chunkSize)
  rw [← chunkStarts] at hm
  rcases hfold : (chunkStarts row.size).foldl (fillChunk value)
    (row, Counter.new "Initializing array" row.size, run) with ⟨filled, counter, last⟩
  rw [fillRow_eq] at h
  beta_reduce at h
  rw [hfold] at h hm
  cases h
  exact ⟨m, hm⟩

theorem foldl_fillChunk_cancelled {counter : Counter} {run : Run} (h : run.cancelled = true)
    (starts : List Nat) :
    starts.foldl (fillChunk value) (row, counter, run) = (row, counter, run) := by
  induction starts with
  | nil => rfl
  | cons start starts ih => rwa [List.foldl_cons, fillChunk, if_pos h]

/-- A receiver that cancels upon the message about the first chunk gets that chunk. -/
theorem fillRow_cut {run sent : Run} {counter : Counter} (hsize : chunkSize ≤ row.size)
    (hlive : run.cancelled = false) (hcut : sent.cancelled = true)
    (hsend : (Counter.new "Initializing array" row.size).advance chunkSize run = (counter, sent)) :
    fillRow value row run = (filledTo value chunkSize row, sent) := by
  have hpos : 0 < chunkSize := by decide
  obtain ⟨k, hk⟩ : ∃ k, (row.size + chunkSize - 1) / chunkSize = k + 1 := by
    refine ⟨_, (Nat.succ_pred_eq_of_pos (Nat.div_pos ?_ hpos)).symm⟩
    omega
  have hchunk : fillChunk value (row, .new "Initializing array" row.size, run) (0 * chunkSize) =
      (filledTo value chunkSize row, counter, sent) := by
    have hrow := @modifyRow_filledTo α value row 0 chunkSize (by omega) hsize
    rw [Nat.zero_min, filledTo_zero] at hrow
    rw [fillChunk, if_neg (Bool.eq_false_iff.mp hlive), Nat.zero_mul, Nat.zero_add,
      min_eq_left hsize]
    exact Prod.ext hrow hsend
  rw [fillRow_eq]
  beta_reduce
  rw [chunkStarts, hk, List.range_succ_eq_map, List.map_cons, List.foldl_cons, hchunk,
    foldl_fillChunk_cancelled hcut]

end Builtin.CreateArray

/-- Writing a body changes one object of the tree. -/
theorem Tree.object?_setBodyAt {t : Tree} {path : Path} {body : Body} {id : ObjectId} {o : Object}
    (hid : t.idOf? path = some id) (ho : t.object? id = some o) :
    (t.setBodyAt path body).object? id = some { o with body := body } ∧
      (∀ i ≠ id, (t.setBodyAt path body).object? i = t.object? i) ∧
      (t.setBodyAt path body).roots = t.roots ∧ (t.setBodyAt path body).nextId = t.nextId := by
  have hwritten : t.setBodyAt path body = t.setBody id body := by
    rw [setBodyAt, hid]
  rw [hwritten]
  refine ⟨?_, fun i hi => ?_, rfl, rfl⟩
  · rw [object?_setBody, ho]
    simp
  · rw [object?_setBody]
    cases t.object? i <;> simp [hi]

namespace Builtin.CreateArray

/--
Whatever run an allocated array is filled in, its elements are afterwards the value up to some
place and the old ones from there on, the place is the end of the array or of a chunk before that,
and nothing else in the tree has changed. The body says that it has finished exactly if the run is
not cancelled in the end, and then the array is full; so it is if nobody cancels. Nothing is
filled in a run that was cancelled before it.
-/
theorem fill_stops {type : ElementType} {path : Path} {text : String} {value : type.Carrier}
    {w : Workspace} {s : DenseStore type.Carrier} {row : Array type.Carrier}
    (hvalue : type.parse? text = some value) (hs : w.tree.denseAt path type = .ok s)
    (hrow : s.row? = some row) :
    ∃ (c : Completion) (w' : Workspace) (m : Nat), (fill type path text).run w = (.ok c, w') ∧
      (m = row.size ∨ chunkSize ∣ m ∧ m < row.size) ∧
      (∃ id o, w.tree.idOf? path = some id ∧ w.tree.object? id = some o ∧
        o.body = .array ⟨type, s⟩ ∧
        w'.tree.object? id = some { o with body := .array ⟨type, { s with
          row? := some (.replicate m value ++ row.extract m row.size) }⟩ } ∧
        (∀ i ≠ id, w'.tree.object? i = w.tree.object? i) ∧
        w'.tree.roots = w.tree.roots ∧ w'.tree.nextId = w.tree.nextId) ∧
      (c = .finished ↔ w'.run.cancelled = false) ∧
      (c = .finished → m = row.size) ∧
      (w.run.cancelled = false → w.run.cancelAfter = none → c = .finished) ∧
      (w.run.cancelled = true → m = 0) := by
  rcases hfill : fillRow value row w.run with ⟨filled, run⟩
  obtain ⟨m, hm⟩ := fillRow_filled hfill
  obtain ⟨o, ho, hbody⟩ := Tree.denseAt_eq_ok.mp hs
  obtain ⟨id, hid, ho⟩ := Tree.objectAt_eq_ok.mp ho
  have hfinished : (if run.cancelled = true then Completion.cancelled else .finished) = .finished ↔
      run.cancelled = false := by
    cases run.cancelled <;> decide
  have hrun := fill_run hvalue hs hrow hfill
  rw [hm.row_eq] at hrun
  refine ⟨_, _, m, hrun, hm.whole, ⟨id, o, hid, ho, hbody, Tree.object?_setBodyAt hid ho⟩,
    hfinished, fun h => ?_, fun hlive hnone => ?_, hm.untouched⟩
  · rw [hm.reached (hfinished.mp h)]
    exact min_eq_right (le_chunks _)
  · exact hfinished.mpr (hm.continues.undisturbed hlive hnone)

/-- The receiver cancels upon the message about the first of two chunks. -/
theorem fill_stops_bytes :
    let path : Path := .single "bytes"
    let bytes (row : Array UInt8) : DenseStore UInt8 := ⟨[65537], [1], some row⟩
    let old : Array UInt8 := .replicate 65537 0
    let w : Workspace :=
      ⟨((Action.createArray path .uint8 [65537] [1]).apply .execute |>.on .empty).2,
        ⟨false, some 1, 1, []⟩⟩
    ElementType.parse? .uint8 "7" = some (7 : UInt8) ∧
      w.tree.denseAt path .uint8 = .ok (bytes old) ∧
      ∃ w', (fill .uint8 path "7").run w = (.ok .cancelled, w') ∧
        w'.run.messages = [.progress "Initializing array 99%" 99] ∧
        ∃ o, w'.tree.object? 0 = some o ∧
          o.body = .array ⟨.uint8, bytes (.replicate 65536 7 ++ .replicate 1 0)⟩ := by
  intro path bytes old w
  have hvalue : ElementType.parse? .uint8 "7" = some (7 : UInt8) := by rfl
  have hs : w.tree.denseAt path .uint8 = .ok (bytes old) := rfl
  have hsize : old.size = 65537 := Array.size_replicate
  have hfill : fillRow (7 : UInt8) old w.run = (filledTo 7 chunkSize old,
      ⟨true, some 1, 1, [.progress "Initializing array 99%" 99]⟩) := by
    have hsend : (Counter.new "Initializing array" old.size).advance chunkSize w.run =
        (⟨"Initializing array", 65537, 65536, 99⟩,
          ⟨true, some 1, 1, [.progress "Initializing array 99%" 99]⟩) := by
      rw [hsize]
      decide +kernel
    refine fillRow_cut ?_ rfl rfl hsend
    rw [hsize]
    decide
  obtain ⟨c, w', m, hrun, -, ⟨id, o, hid, ho, -, hwritten, -⟩, -⟩ := fill_stops hvalue hs rfl
  cases hrun.symm.trans (fill_run hvalue hs rfl hfill)
  have hrow := hwritten.symm.trans (Tree.object?_setBodyAt hid ho).1
  simp only [Option.some.injEq, Object.mk.injEq, Body.array.injEq, DataArray.mk.injEq, heq_eq_eq,
    DenseStore.mk.injEq, true_and] at hrow
  have hlast : old.extract chunkSize = .replicate 1 0 := by
    rw [Array.extract_replicate, hsize]
    rfl
  obtain rfl : 0 = id := Option.some.inj hid
  refine ⟨hvalue, hs, _, hrun, rfl, _, hwritten, ?_⟩
  rw [hrow, filledTo, hlast]
  rfl

end Builtin.CreateArray

end FilterTree
