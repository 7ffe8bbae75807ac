import FactGraph.Proofs.Store.Update

/-!
# Batches, call by call

A long list is worked off by calls, one for each of its chunks. `Calls` tells how calls go: each
starts where the one before it ended, and the first that fails is the last. The calls of a batch are
of this kind, on consecutive slices of the list (`BatchConfig.exists_calls_execute`). An operation
that can be done piece by piece is not changed by the chunks (`BatchConfig.execute_of_distributes`).

Chunks for one statement are as long as the cells that it can bind allow, and never empty
(`BatchConfig.length_mul_le_of_mem_chunks`, `BatchConfig.ne_nil_of_mem_chunks`).
-/

namespace FactGraph

variable {α β : Type}

/-! ## Sizes -/

theorem length_le_of_mem_chunksOf {size : Nat} {items chunk : List α}
    (h : chunk ∈ chunksOf size items) : chunk.length ≤ size + 1 := by
  fun_induction chunksOf size items with
  | case1 => simp at h
  | case2 items _ ih =>
    rcases List.mem_cons.1 h with rfl | h
    · exact List.length_take_le _ _
    · exact ih h

theorem ne_nil_of_mem_chunksOf {size : Nat} {items chunk : List α}
    (h : chunk ∈ chunksOf size items) : chunk ≠ [] := by
  fun_induction chunksOf size items with
  | case1 => simp at h
  | case2 items hitems ih =>
    rcases List.mem_cons.1 h with rfl | h
    · simpa using hitems
    · exact ih h

namespace BatchConfig

variable {config : BatchConfig} {items chunk : List α} {width : Nat}

theorem chunks_of_not_chunked (h : config.chunked = false) (items : List α) :
    config.chunks items = [items] := by
  simp [chunks, h]

theorem length_le_of_mem_chunks (hchunked : config.chunked = true)
    (h : chunk ∈ config.chunks items) : chunk.length ≤ max 1 config.size := by
  unfold chunks at h
  rw [hchunked] at h
  by_cases hshort : items.length ≤ max config.size 1
  · simp only [hshort, decide_true, Bool.or_true, if_true, List.mem_singleton] at h
    rw [h]
    omega
  · simp only [hshort, decide_false, Bool.not_true, Bool.or_false, Bool.false_eq_true,
      if_false] at h
    have hlength := length_le_of_mem_chunksOf h
    omega

/-- Only the empty list has an empty chunk. -/
theorem ne_nil_of_mem_chunks (hitems : items ≠ []) (h : chunk ∈ config.chunks items) :
    chunk ≠ [] := by
  unfold chunks at h
  split at h
  · rwa [List.mem_singleton.1 h]
  · exact ne_nil_of_mem_chunksOf h

theorem chunks_ne_nil (config : BatchConfig) (items : List α) : config.chunks items ≠ [] := by
  intro hnil
  have hflatten := config.flatten_chunks items
  rw [hnil, List.flatten_nil] at hflatten
  rw [chunks, ← hflatten] at hnil
  simp at hnil

/-- These are consecutive slices of the list, as the configuration wants them. -/
structure IsSlicing (config : BatchConfig) (items : List α) (slices : List (List α)) : Prop where
  flatten_eq : slices.flatten = items
  length_le : config.chunked = true → ∀ slice ∈ slices, slice.length ≤ max 1 config.size
  whole : config.chunked = false → slices = [items]
  ne_nil : items ≠ [] → ∀ slice ∈ slices, slice ≠ []

theorem isSlicing_chunks (config : BatchConfig) (items : List α) :
    config.IsSlicing items (config.chunks items) where
  flatten_eq := config.flatten_chunks items
  length_le hchunked _ := length_le_of_mem_chunks hchunked
  whole h := chunks_of_not_chunked h items
  ne_nil hitems _ := ne_nil_of_mem_chunks hitems

/-! ## Chunks for one statement -/

theorem chunked_perStatement (config : BatchConfig) (width : Nat) :
    (config.perStatement width).chunked = true := rfl

theorem one_le_size_perStatement (config : BatchConfig) (width : Nat) :
    1 ≤ (config.perStatement width).size := by
  simp only [perStatement]
  omega

/-- Rows of a chunk have no more cells than a statement can bind. -/
theorem size_perStatement_mul_le (config : BatchConfig) (hpos : 1 ≤ width)
    (hwidth : width ≤ maxBoundCells) :
    (config.perStatement width).size * width ≤ maxBoundCells := by
  have hcap : 1 ≤ maxBoundCells / width := Nat.div_pos hwidth hpos
  have hsize : (config.perStatement width).size ≤ maxBoundCells / width := by
    simp only [perStatement, Nat.max_eq_left hpos, Nat.max_eq_left hcap]
    exact Nat.min_le_right _ _
  calc (config.perStatement width).size * width
      ≤ maxBoundCells / width * width := Nat.mul_le_mul_right _ hsize
    _ ≤ maxBoundCells := Nat.div_mul_le_self _ _

theorem length_mul_le_of_mem_chunks (hpos : 1 ≤ width) (hwidth : width ≤ maxBoundCells)
    (h : chunk ∈ (config.perStatement width).chunks items) :
    chunk.length * width ≤ maxBoundCells := by
  have hlength := length_le_of_mem_chunks (config.chunked_perStatement width) h
  rw [Nat.max_eq_right (config.one_le_size_perStatement width)] at hlength
  exact Nat.le_trans (Nat.mul_le_mul_right _ hlength) (config.size_perStatement_mul_le hpos hwidth)

end BatchConfig

/-! ## Calls -/

section Calls

variable {ε σ : Type} {operation : List α → ExceptT ε (StateM σ) (List β)}

/-- How calls of an operation on these slices go, from one state to another. Each call starts in the
state that the one before it left, the results are joined in order, and a call that fails is the
last. -/
inductive Calls (operation : List α → ExceptT ε (StateM σ) (List β)) :
    σ → List (List α) → Except ε (List β) → σ → Prop
  | done (s : σ) : Calls operation s [] (.ok []) s
  | fails {s last : σ} {slice : List α} {cause : ε}
      (h : (operation slice).run.run s = (.error cause, last)) :
      Calls operation s [slice] (.error cause) last
  | succeeds {s middle last : σ} {slice : List α} {slices : List (List α)} {results : List β}
      {outcome : Except ε (List β)} (h : (operation slice).run.run s = (.ok results, middle))
      (hrest : Calls operation middle slices outcome last) :
      Calls operation s (slice :: slices) (outcome.map (results ++ ·)) last

theorem run_bind_of_ok {γ δ : Type} {x : ExceptT ε (StateM σ) γ} {f : γ → ExceptT ε (StateM σ) δ}
    {s middle : σ} {c : γ} (h : x.run.run s = (.ok c, middle)) :
    (x >>= f).run.run s = (f c).run.run middle := by
  rw [ExceptT.run_bind, StateT.run_bind, h]
  rfl

theorem run_bind_of_error {γ δ : Type} {x : ExceptT ε (StateM σ) γ}
    {f : γ → ExceptT ε (StateM σ) δ} {s last : σ} {cause : ε}
    (h : x.run.run s = (.error cause, last)) : (x >>= f).run.run s = (.error cause, last) := by
  rw [ExceptT.run_bind, StateT.run_bind, h]
  rfl

/-- What a list of slices is worked off by: calls on all of them, or on the first ones, up to one
that fails. -/
theorem exists_calls_mapM (operation : List α → ExceptT ε (StateM σ) (List β))
    (slices : List (List α)) (s : σ) :
    ∃ called uncalled outcome last, called ++ uncalled = slices ∧
      (List.flatten <$> slices.mapM operation).run.run s = (outcome, last) ∧
      Calls operation s called outcome last ∧ (outcome.isOk = true → uncalled = []) := by
  -- On the slices, for every state: a slice is worked off in the state that the one before it left.
  induction slices generalizing s with
  | nil => exact ⟨[], [], .ok [], s, rfl, rfl, .done s, fun _ => rfl⟩
  | cons slice slices ih =>
    have hsplit : List.flatten <$> (slice :: slices).mapM operation =
        operation slice >>= fun results =>
          (results ++ ·) <$> (List.flatten <$> slices.mapM operation) := by
      simp [List.mapM_cons]
    rcases hcall : (operation slice).run.run s with ⟨cause | results, middle⟩
    · refine ⟨[slice], slices, .error cause, middle, rfl, ?_, .fails hcall, nofun⟩
      rw [hsplit, run_bind_of_error hcall]
    · obtain ⟨called, uncalled, outcome, last, hslices, hrun, hcalls, hall⟩ := ih middle
      refine ⟨slice :: called, uncalled, outcome.map (results ++ ·), last, ?_, ?_,
        .succeeds hcall hcalls, ?_⟩
      · rw [List.cons_append, hslices]
      · rw [hsplit, run_bind_of_ok hcall, ExceptT.run_map, StateT.run_map, hrun]
        rfl
      · intro hok
        cases outcome with
        | error cause => exact nomatch hok
        | ok results => exact hall rfl

namespace BatchConfig

/-- **A batch is worked off by calls** on consecutive slices of the list. -/
theorem exists_calls_execute (config : BatchConfig)
    (operation : List α → ExceptT ε (StateM σ) (List β)) (items : List α) (s : σ) :
    ∃ called uncalled outcome last, called ++ uncalled = config.chunks items ∧
      (config.execute operation items).run.run s = (outcome, last) ∧
      Calls operation s called outcome last ∧ (outcome.isOk = true → uncalled = []) :=
  exists_calls_mapM operation (config.chunks items) s

end BatchConfig

end Calls

/-! ## Operations that can be done piece by piece -/

section Distributes

variable {m : Type → Type} [Monad m] [LawfulMonad m]

/-- The operation on a list is the operation on its front and then on the rest. -/
def Distributes (operation : List α → m (List β)) : Prop :=
  ∀ front back, operation (front ++ back) = do
    let first ← operation front
    let rest ← operation back
    return first ++ rest

theorem Distributes.mapM_cons {operation : List α → m (List β)} (h : Distributes operation)
    (slice : List α) (slices : List (List α)) :
    List.flatten <$> (slice :: slices).mapM operation = operation (slice :: slices).flatten := by
  induction slices generalizing slice with
  | nil => simp [List.mapM_cons]
  | cons next slices ih =>
    rw [List.flatten_cons, h, ← ih next]
    simp [List.mapM_cons]

/-- **The chunks do not show** in what an operation does that can be done piece by piece. -/
theorem BatchConfig.execute_of_distributes (config : BatchConfig)
    {operation : List α → m (List β)} (h : Distributes operation) (items : List α) :
    config.execute operation items = operation items := by
  obtain ⟨slice, slices, hchunks⟩ := List.exists_cons_of_ne_nil (config.chunks_ne_nil items)
  rw [execute, hchunks, h.mapM_cons, ← hchunks, config.flatten_chunks]

end Distributes

end FactGraph
