import Leone.Cpu.Rows

/-!
# Runs of row writes

The rows of an append are written one after the other. A row that was written stays, since rows that
start at different multiples of their length are apart.
-/

namespace Leone.Cpu

open Framework Framework.Method Kv

section Runs

variable {F α : Type}

/-- A row lies in its source and in the cache, and starts at a multiple of its length. -/
structure RowFits (headDim cached length : Nat) (row : Nat × Nat) : Prop where
  source : row.1 + headDim ≤ length
  aligned : headDim ∣ row.2
  target : row.2 + headDim ≤ cached

def storeRow (format : CacheFormat F α) (headDim : Nat) (source : List F) (cells : List α)
    (row : Nat × Nat) : Option (List α) :=
  (rowAt source row.1 headDim).bind fun values => format.store cells row.2 values

theorem rowAt_eq {source : List F} {start headDim : Nat} (h : start + headDim ≤ source.length) :
    rowAt source start headDim = some (slice source start (start + headDim)) := if_pos h

theorem length_row {source : List F} {start headDim : Nat} (h : start + headDim ≤ source.length) :
    (slice source start (start + headDim)).length = headDim := by
  rw [length_slice source h]
  omega

/-! ## The two caches -/

theorem run_appendRow {format : CacheFormat F α} {headDim : Nat} {key value : List F}
    {row : Nat × Nat} {k k' v v' : List α} (hk : storeRow format headDim key k row = some k')
    (hv : storeRow format headDim value v row = some v') :
    (appendRow format headDim key value row).run (k, v) = .ok () (k', v') := by
  rw [storeRow, Option.bind_eq_some_iff] at hk hv
  rcases hk with ⟨keyRow, hkeyRow, hk⟩
  rcases hv with ⟨valueRow, hvalueRow, hv⟩
  show (appendRow format headDim key value row) (k, v) = _
  unfold appendRow
  rw [hkeyRow, hvalueRow]
  show ((orPanic (format.store k row.2 keyRow) >>= fun keyCells => do
    set (keyCells, v)
    let valueRow ← orPanic (some valueRow)
    let valueCells ← orPanic (format.store v row.2 valueRow)
    set (keyCells, valueCells)) : Method (List α × List α) BackendError Unit) (k, v) = _
  rw [hk]
  show ((orPanic (format.store v row.2 valueRow) >>= fun valueCells => set (k', valueCells)) :
    Method (List α × List α) BackendError Unit) (k', v) = _
  rw [hv]
  rfl

/-- The caches are written independently of each other. -/
theorem run_rows {format : CacheFormat F α} {headDim : Nat} {key value : List F}
    {rows : List (Nat × Nat)} {k k' v v' : List α}
    (hk : rows.foldlM (storeRow format headDim key) k = some k')
    (hv : rows.foldlM (storeRow format headDim value) v = some v') :
    (forM rows fun row => appendRow format headDim key value row :
      Method (List α × List α) BackendError Unit).run (k, v) = .ok () (k', v') := by
  induction rows generalizing k v with
  | nil =>
    cases hk
    cases hv
    rfl
  | cons row rows ih =>
    rw [List.foldlM_cons, Option.bind_eq_bind, Option.bind_eq_some_iff] at hk hv
    rcases hk with ⟨k₁, hfirst, hk⟩
    rcases hv with ⟨v₁, hfirst', hv⟩
    rw [List.forM_cons, EStateM.run_bind, run_appendRow hfirst hfirst']
    exact ih hk hv

theorem run_appendRows {format : CacheFormat F α} {key value : List F} {cached headDim : Nat}
    {rows : List (Nat × Nat)} {caches : Caches F} {k k' v v' : List α}
    (hkey : format.cells caches.key = .ok k) (hvalue : format.cells caches.value = .ok v)
    (hklen : k.length = format.size cached) (hvlen : v.length = format.size cached)
    (hk : rows.foldlM (storeRow format headDim key) k = some k')
    (hv : rows.foldlM (storeRow format headDim value) v = some v') :
    (appendRows format key value cached headDim rows).Ends caches
      (fun _ after => after = caches.withCells format (k', v')) (fun _ _ => False) := by
  have hrun := run_rows hk hv
  have hexact : ∀ name, exactLen name (format.size cached) k.length = .ok () := fun _ => if_pos hklen.symm
  have hexact' : ∀ name, exactLen name (format.size cached) v.length = .ok () := fun _ => if_pos hvlen.symm
  unfold appendRows
  simp only [ends_bind, ends_get, hkey, hvalue, hexact, hexact', ends_ofExcept, Except.ok.injEq,
    forall_eq', reduceCtorEq, false_implies, implies_true, and_true, forall_const, ends_zoom]
  rw [Ends, hrun]

/-! ## One cache -/

/-- Rows of the same length that start at different multiples of it are apart. -/
theorem aligned_apart {headDim a b index : Nat} (ha : headDim ∣ a) (hb : headDim ∣ b)
    (hina : a ≤ index ∧ index < a + headDim) (hinb : b ≤ index ∧ index < b + headDim) : a = b := by
  rcases ha with ⟨i, rfl⟩
  rcases hb with ⟨j, rfl⟩
  have hi : index / headDim = i := by
    apply Nat.div_eq_of_lt_le
    · rw [Nat.mul_comm]
      exact hina.1
    · rw [Nat.mul_comm, Nat.mul_succ]
      exact hina.2
  have hj : index / headDim = j := by
    apply Nat.div_eq_of_lt_le
    · rw [Nat.mul_comm]
      exact hinb.1
    · rw [Nat.mul_comm, Nat.mul_succ]
      exact hinb.2
  rw [← hi, ← hj]

/-- The rows of a source are in the cache, and the rest of the cache is as it was. -/
structure RowsWritten (arith : Arithmetic F) (format : CacheFormat F α) (headDim : Nat)
    (source : List F) (rows : List (Nat × Nat)) (before after : List α) : Prop where
  length : after.length = before.length
  stored : ∀ row ∈ rows, ∀ dimension < headDim, (format.wrap after).stored (row.2 + dimension) =
    (format.wrap before).form arith (slice source row.1 (row.1 + headDim)) dimension
  kept : ∀ index, (∀ row ∈ rows, ¬ (row.2 ≤ index ∧ index < row.2 + headDim)) →
    (format.wrap after).stored index = (format.wrap before).stored index

variable {arith : Arithmetic F} {format : CacheFormat F α} {headDim cached : Nat} {source : List F}

theorem storeRow_written (hstores : format.Stores arith headDim cached) {row : Nat × Nat}
    (hfits : RowFits headDim cached source.length row) {cells : List α}
    (hlength : cells.length = format.size cached) :
    ∃ cells', storeRow format headDim source cells row = some cells' ∧
      RowsWritten arith format headDim source [row] cells cells' := by
  rcases hstores.store cells row.2 (slice source row.1 (row.1 + headDim)) hlength
    (length_row hfits.source) hfits.aligned hfits.target with ⟨cells', hstore, hsame, hcells⟩
  refine ⟨cells', ?_, hsame, ?_, ?_⟩
  · rw [storeRow, rowAt_eq hfits.source]
    exact hstore
  · intro row' hrow' dimension hdimension
    cases List.mem_singleton.mp hrow'
    rw [hcells, if_pos ⟨Nat.le_add_right _ _, Nat.add_lt_add_left hdimension _⟩,
      Nat.add_sub_cancel_left]
  · intro index houtside
    rw [hcells, if_neg (houtside row (List.mem_singleton_self row))]

/-- Rows with different targets do not overwrite each other. -/
theorem foldlM_storeRow (hstores : format.Stores arith headDim cached) {rows : List (Nat × Nat)}
    (hfits : ∀ row ∈ rows, RowFits headDim cached source.length row)
    (hunique : ∀ row ∈ rows, ∀ row' ∈ rows, row.2 = row'.2 → row = row') {cells : List α}
    (hlength : cells.length = format.size cached) :
    ∃ cells', rows.foldlM (storeRow format headDim source) cells = some cells' ∧
      RowsWritten arith format headDim source rows cells cells' := by
  induction rows generalizing cells with
  | nil => exact ⟨cells, rfl, rfl, fun _ h => (List.not_mem_nil h).elim, fun _ _ => rfl⟩
  | cons row rows ih =>
    rcases storeRow_written hstores (hfits row List.mem_cons_self) hlength with
      ⟨cells₁, hfirst, hrow⟩
    rcases ih (fun row hrow => hfits row (List.mem_cons_of_mem _ hrow))
      (fun row hrow row' hrow' => hunique row (List.mem_cons_of_mem _ hrow) row'
        (List.mem_cons_of_mem _ hrow')) (hrow.length.trans hlength) with ⟨cells', hfold, hrows⟩
    refine ⟨cells', ?_, hrows.length.trans hrow.length, ?_, ?_⟩
    · rw [List.foldlM_cons, hfirst]
      exact hfold
    · intro row' hrow' dimension hdimension
      by_cases hlater : row' ∈ rows
      · rw [hrows.stored row' hlater dimension hdimension, hstores.form cells₁ cells]
      · have hhere : row' = row := (List.mem_cons.mp hrow').resolve_right hlater
        rw [hrows.kept, hhere, hrow.stored row (List.mem_singleton_self row) dimension hdimension]
        intro other hother hinside
        have haligned := (hfits other (List.mem_cons_of_mem _ hother)).aligned
        have htarget : other.2 = row'.2 := aligned_apart haligned (hfits row' hrow').aligned hinside
          ⟨Nat.le_add_right _ _, Nat.add_lt_add_left hdimension _⟩
        rw [← hunique other (List.mem_cons_of_mem _ hother) row' hrow' htarget] at hlater
        exact hlater hother
    · intro index houtside
      rw [hrows.kept index fun other hother => houtside other (List.mem_cons_of_mem _ hother),
        hrow.kept]
      intro other hother
      rw [List.mem_singleton.mp hother]
      exact houtside row List.mem_cons_self

/-- Blocks behind the whole blocks of every row are not written. -/
theorem foldlM_storeRow_behind {rows : List (Nat × Nat)} {index : Nat}
    (hfits : ∀ row ∈ rows, RowFits headDim cached source.length row)
    (hbehind : ∀ row ∈ rows, row.2 / 32 + headDim / 32 ≤ index / 32) {cells : List UInt8}
    (hlength : cells.length = cached / 32 * 34) :
    ∃ cells', rows.foldlM (storeRow (q8Format arith) headDim source) cells = some cells' ∧
      (q8Cell cells' index : Option (Stored F)) = q8Cell cells index := by
  induction rows generalizing cells with
  | nil => exact ⟨cells, rfl, rfl⟩
  | cons row rows ih =>
    have hrow := hfits row List.mem_cons_self
    have hend := hbehind row List.mem_cons_self
    have hlen := length_row hrow.source
    have htarget := hrow.target
    have hroom : (row.2 / 32 + (slice source row.1 (row.1 + headDim)).length / 32) * 34 ≤
        cells.length := by
      rw [hlen, hlength]
      omega
    rcases q8KvStore_cell arith hroom with ⟨cells₁, hstore, hsame, hcells⟩
    rcases ih (fun row hrow => hfits row (List.mem_cons_of_mem _ hrow))
      (fun row hrow => hbehind row (List.mem_cons_of_mem _ hrow)) (hsame.trans hlength) with
      ⟨cells', hfold, hkept⟩
    refine ⟨cells', ?_, ?_⟩
    · rw [List.foldlM_cons, storeRow, rowAt_eq hrow.source]
      show (q8KvStore arith cells row.2 _ >>= _) = _
      rw [hstore]
      exact hfold
    · rw [hkept, hcells, if_neg]
      rw [hlen]
      omega

end Runs

/-! ## The rows of a chunk -/

theorem mem_chunkRows {shape : AttentionShape} {start tokens : Nat} {row : Nat × Nat} :
    row ∈ chunkRows shape start tokens ↔ ∃ token < tokens, ∃ head < shape.nHeadKv,
      row = ((token * shape.nHeadKv + head) * shape.headDim,
        (head * shape.maxContext + start + token) * shape.headDim) := by
  simp [chunkRows, eq_comm]

theorem positionRows_eq (shape : AttentionShape) (position : Nat) :
    positionRows shape position = chunkRows shape position 1 := by
  simp [positionRows, chunkRows]

/-- A head and a position in the context give a cell of their own. -/
theorem place_unique {context head head' position position' : Nat} (h : position < context)
    (h' : position' < context) (heq : head * context + position = head' * context + position') :
    head = head' ∧ position = position' := by
  have hhead : head = head' := by
    have hdiv := congrArg (· / context) heq
    simp only [Nat.mul_comm _ context] at hdiv
    rwa [Nat.mul_add_div (by omega), Nat.mul_add_div (by omega), Nat.div_eq_of_lt h,
      Nat.div_eq_of_lt h'] at hdiv
  refine ⟨hhead, ?_⟩
  rw [hhead] at heq
  exact Nat.add_left_cancel heq

theorem place_lt {rows columns row column : Nat} (hrow : row < rows) (hcolumn : column < columns) :
    row * columns + column < rows * columns := by
  have h := Nat.mul_le_mul_right columns hrow
  rw [Nat.succ_mul] at h
  omega

theorem chunkRows_fits {shape : AttentionShape} {start tokens : Nat}
    (hend : start + tokens ≤ shape.maxContext) {row : Nat × Nat}
    (h : row ∈ chunkRows shape start tokens) :
    RowFits shape.headDim (shape.nHeadKv * shape.maxContext * shape.headDim)
      (shape.nHeadKv * shape.headDim * tokens) row := by
  rcases mem_chunkRows.mp h with ⟨token, htoken, head, hhead, rfl⟩
  have hsource := Nat.mul_le_mul_right shape.headDim (place_lt htoken hhead)
  have htarget := Nat.mul_le_mul_right shape.headDim
    (place_lt hhead (show start + token < shape.maxContext by omega))
  rw [Nat.succ_mul] at hsource htarget
  refine ⟨?_, Nat.dvd_mul_left _ _, ?_⟩
  · rw [Nat.mul_right_comm, Nat.mul_comm shape.nHeadKv tokens]
    exact hsource
  · rw [Nat.add_assoc (head * shape.maxContext)]
    exact htarget

theorem chunkRows_unique {shape : AttentionShape} {start tokens : Nat}
    (hend : start + tokens ≤ shape.maxContext) {row row' : Nat × Nat}
    (h : row ∈ chunkRows shape start tokens) (h' : row' ∈ chunkRows shape start tokens)
    (htarget : row.2 = row'.2) : row = row' := by
  rcases mem_chunkRows.mp h with ⟨token, htoken, head, hhead, rfl⟩
  rcases mem_chunkRows.mp h' with ⟨token', htoken', head', hhead', rfl⟩
  have hplace := Nat.eq_of_mul_eq_mul_right shape.headDim_pos htarget
  rw [Nat.add_assoc, Nat.add_assoc] at hplace
  rcases place_unique (by omega) (by omega) hplace with ⟨rfl, hposition⟩
  rw [Nat.add_left_cancel hposition]

end Leone.Cpu
