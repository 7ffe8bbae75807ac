import FactGraph.Proofs.Row.Explosion
import FactGraph.Proofs.Store.Value

/-!
# Occurrences in a run

In a run over rows without ids, each accepted row counts under its **triple**: the node, the label
and the written form of the value (`FlatRow.triple?`). A rejected row has no triple and does not
count. Each triple is numbered from zero, so the numbered triples of a run depend on how often a
triple comes, and not on where it comes or on how its value was written (`perm_numberedFrom`).

Values with finite numbers are told by their written form, up to the signs of zeros, so the numbered
triples tell the statements of the run (`map_unsignedZeros_explode`). Two runs over the same rows
in another order have the same statements in another order (`rearranged_statements_explode`). If
the digest tells its inputs apart, the ids of a run are distinct, also after they have been written
(`nodup_kept_ids_explode`).
-/

namespace FactGraph

namespace FlatRow

/-- The row has no id. An empty one counts as absent. -/
def HasNoId (row : FlatRow) : Prop := row.id.filter (!·.isEmpty) = none

instance (row : FlatRow) : Decidable row.HasNoId := by
  unfold HasNoId
  infer_instance

/-- If the literal of the row is read, its numbers are finite. -/
def HasFiniteValue (row : FlatRow) : Prop :=
  ∀ v, Literal.decode row.node2 = .ok v → v.isFinite = true

instance (row : FlatRow) : Decidable row.HasFiniteValue :=
  decidable_of_iff ((Literal.decode row.node2).toOption.all Literal.isFinite = true) <| by
    unfold HasFiniteValue
    cases Literal.decode row.node2 <;> simp [Except.toOption]

/-- What the row says, with its value in written form, if the row is accepted. -/
def triple? (row : FlatRow) : Option Triple :=
  if row.isAccepted then
    (Literal.decode row.node2).toOption.map fun v => (row.node1, row.label, v.encode)
  else none

end FlatRow

/-! ## Numbering -/

section Numbering

variable {seen ts us : List Triple} {t : Triple} {k : Nat}

/-- Each triple with the number of times that it came before, in this list or among those seen. -/
def numberedFrom (seen : List Triple) : List Triple → List (Triple × Nat)
  | [] => []
  | t :: ts => (t, seen.count t) :: numberedFrom (t :: seen) ts

/-- **The numbers of a triple are an interval**, which only its counts decide. -/
theorem mem_numberedFrom :
    (t, k) ∈ numberedFrom seen ts ↔ seen.count t ≤ k ∧ k < seen.count t + ts.count t := by
  induction ts generalizing seen with
  | nil => simp [numberedFrom]
  | cons u us ih =>
    rw [numberedFrom, List.mem_cons, ih]
    by_cases h : u = t
    · subst h
      simp only [Prod.mk.injEq, true_and, List.count_cons_self]
      omega
    · simp only [Prod.mk.injEq, Ne.symm h, false_and, false_or, List.count_cons_of_ne h]

theorem nodup_numberedFrom (seen ts : List Triple) : (numberedFrom seen ts).Nodup := by
  induction ts generalizing seen with
  | nil => exact .nil
  | cons t ts ih =>
    refine List.nodup_cons.2 ⟨fun hmem => ?_, ih (t :: seen)⟩
    have hcount := (mem_numberedFrom.1 hmem).1
    rw [List.count_cons_self] at hcount
    omega

/-- **The order of the triples does not matter.** -/
theorem perm_numberedFrom (seen : List Triple) (h : ts.Perm us) :
    (numberedFrom seen ts).Perm (numberedFrom seen us) := by
  refine (List.perm_ext_iff_of_nodup (nodup_numberedFrom ..) (nodup_numberedFrom ..)).2 ?_
  rintro ⟨t, k⟩
  rw [mem_numberedFrom, mem_numberedFrom, h.count_eq]

theorem numberedFrom_of_nodup (h : ts.Nodup) (hseen : ∀ t ∈ ts, t ∉ seen) :
    numberedFrom seen ts = ts.map (·, 0) := by
  induction ts generalizing seen with
  | nil => rfl
  | cons t ts ih =>
    obtain ⟨ht, hts⟩ := List.nodup_cons.1 h
    obtain ⟨hfirst, hrest⟩ := List.forall_mem_cons.1 hseen
    have hlater : ∀ u ∈ ts, u ∉ t :: seen := fun u hu hmem =>
      (List.mem_cons.1 hmem).elim (fun heq => ht (heq ▸ hu)) (hrest u hu)
    rw [numberedFrom, ih hts hlater, List.count_eq_zero.2 hfirst, List.map_cons]

end Numbering

/-! ## Statements of numbered triples -/

/-- The statement of a numbered triple, if its value is read. -/
def Statement.ofNumbered? : Triple × Nat → Option Statement
  | ((node1, label, node2), k) =>
    (Literal.decode node2).toOption.map fun v =>
      (Statement.ofLiteral (edgeId node1 label node2 k) node1 label v).unsignedZeros

/-- What is digested for a numbered triple. -/
def digested : Triple × Nat → List UInt8
  | ((node1, label, node2), k) => idBytes node1 label node2 k

variable {row : FlatRow} {rows others : List FlatRow}

/-- The numbered triples of a run. -/
def numbered (rows : List FlatRow) : List (Triple × Nat) :=
  numberedFrom [] (rows.filterMap FlatRow.triple?)

/-- The digest tells apart what is digested in a run. -/
def DigestSeparates (rows : List FlatRow) : Prop :=
  ∀ p ∈ numbered rows, ∀ q ∈ numbered rows,
    Digest.stem (digested p) = Digest.stem (digested q) → digested p = digested q

theorem digestSeparates_of_nodup
    (h : ((numbered rows).map fun p => Digest.stem (digested p)).Nodup) : DigestSeparates rows := by
  intro p hp q hq hstem
  rw [List.inj_on_of_nodup_map h hp hq hstem]

theorem perm_numbered (h : rows.Perm others) : (numbered rows).Perm (numbered others) :=
  perm_numberedFrom [] (h.filterMap _)

/-! ## Runs -/

/-- An accepted row without id gives the statement of its triple, with the next number. -/
theorem explodeRow_of_triple? {t : Triple} (seen : List Triple) (hid : row.HasNoId)
    (hfinite : row.HasFiniteValue) (htriple : row.triple? = some t) :
    ∃ s, explodeRow seen row = .ok (s, t :: seen) ∧
      Statement.ofNumbered? (t, seen.count t) = some s.unsignedZeros := by
  unfold FlatRow.triple? at htriple
  split at htriple
  next haccepted =>
    obtain ⟨hnode, hlabel, v, hdecode⟩ := FlatRow.isAccepted_iff.1 haccepted
    rw [hdecode] at htriple
    obtain rfl : (row.node1, row.label, v.encode) = t := Option.some.inj htriple
    have hwellFormed : v.WellFormed :=
      (Literal.formed_of_decode hdecode).1.wellFormed_iff.2 (hfinite v hdecode)
    obtain ⟨w, hread, hzeros, hencode⟩ := Literal.exists_decode_encode hwellFormed
    have hkind : w.kind = v.kind := by
      rw [← Literal.kind_unsignedZeros w, hzeros, Literal.kind_unsignedZeros]
    refine ⟨.ofLiteral (edgeId row.node1 row.label v.encode
      (seen.count (row.node1, row.label, v.encode))) row.node1 row.label v, ?_, ?_⟩
    · have hnone : row.id.filter (!·.isEmpty) = none := hid
      simp only [explodeRow, hnode, hlabel, hdecode, hnone, Bool.false_eq_true, if_false]
    · simp only [Statement.ofNumbered?, hread, Except.toOption, Option.map_some,
        Statement.unsignedZeros, Statement.ofLiteral, Value.unsignedZeros_ofLiteral, hzeros,
        hencode, hkind]
  next => cases htriple

theorem explodeRow_of_triple?_eq_none (seen : List Triple) (htriple : row.triple? = none) :
    ∃ fault, explodeRow seen row = .error fault := by
  rcases explodeRow_cases seen row with ⟨haccepted, -⟩ | ⟨-, hfault⟩
  · obtain ⟨-, -, v, hdecode⟩ := FlatRow.isAccepted_iff.1 haccepted
    rw [FlatRow.triple?, if_pos haccepted, hdecode] at htriple
    cases htriple
  · exact hfault

/-- **The numbered triples tell the statements of a run**, up to the signs of zeros. -/
theorem map_unsignedZeros_explodeFrom (line : Nat) (seen : List Triple)
    (hids : ∀ row ∈ rows, row.HasNoId) (hfinite : ∀ row ∈ rows, row.HasFiniteValue) :
    (explodeFrom false line seen rows).statements.map Statement.unsignedZeros =
      (numberedFrom seen (rows.filterMap FlatRow.triple?)).filterMap Statement.ofNumbered? := by
  -- On the rows. A row that is rejected has no triple and adds none to those seen.
  induction rows generalizing line seen with
  | nil => rfl
  | cons row rows ih =>
    obtain ⟨hid, hids⟩ := List.forall_mem_cons.1 hids
    obtain ⟨hvalue, hfinite⟩ := List.forall_mem_cons.1 hfinite
    cases htriple : row.triple? with
    | some t =>
      obtain ⟨s, hrow, hs⟩ := explodeRow_of_triple? seen hid hvalue htriple
      rw [List.filterMap_cons_some htriple, numberedFrom, List.filterMap_cons_some hs,
        ← ih (line + 1) (t :: seen) hids hfinite, explodeFrom, hrow]
      rfl
    | none =>
      obtain ⟨fault, hrow⟩ := explodeRow_of_triple?_eq_none seen htriple
      rw [List.filterMap_cons_none htriple, ← ih (line + 1) seen hids hfinite, explodeFrom, hrow]
      rfl

theorem map_unsignedZeros_explode (hids : ∀ row ∈ rows, row.HasNoId)
    (hfinite : ∀ row ∈ rows, row.HasFiniteValue) :
    (explode false rows).statements.map Statement.unsignedZeros =
      (numbered rows).filterMap Statement.ofNumbered? :=
  map_unsignedZeros_explodeFrom 2 [] hids hfinite

/-- **The same rows in another order give the same statements in another order**, up to the signs of
zeros. -/
theorem rearranged_statements_explode (hids : ∀ row ∈ rows, row.HasNoId)
    (hfinite : ∀ row ∈ rows, row.HasFiniteValue) (h : rows.Perm others) :
    Statement.Rearranged (explode false rows).statements (explode false others).statements := by
  have hids' : ∀ row ∈ others, row.HasNoId := fun row hrow => hids row (h.mem_iff.2 hrow)
  have hfinite' : ∀ row ∈ others, row.HasFiniteValue := fun row hrow =>
    hfinite row (h.mem_iff.2 hrow)
  rw [Statement.Rearranged, map_unsignedZeros_explode hids hfinite,
    map_unsignedZeros_explode hids' hfinite']
  exact (perm_numbered h).filterMap _

theorem id_of_ofNumbered? {p : Triple × Nat} {s : Statement}
    (h : Statement.ofNumbered? p = some s) :
    s.edge.id = edgeId p.1.1 p.1.2.1 p.1.2.2 p.2 := by
  obtain ⟨v, -, rfl⟩ := Option.map_eq_some_iff.1 h
  rfl

/-- **The ids of a run are distinct**, also after they have been written in any encoding. -/
theorem nodup_kept_ids_explode (encoding : TextEncoding) (hids : ∀ row ∈ rows, row.HasNoId)
    (hfinite : ∀ row ∈ rows, row.HasFiniteValue) (hdigest : DigestSeparates rows) :
    ((explode false rows).statements.map fun s => encoding.kept s.edge.id).Nodup := by
  have hsame : (explode false rows).statements.map (fun s => encoding.kept s.edge.id) =
      ((numbered rows).filterMap Statement.ofNumbered?).map fun s => encoding.kept s.edge.id := by
    rw [← map_unsignedZeros_explode hids hfinite, List.map_map]
    rfl
  rw [hsame]
  -- Numbered triples are distinct, so their ids can only be the same by a collision.
  refine List.pairwise_map.2 (List.pairwise_filterMap.2 ?_)
  refine (List.Pairwise.and_mem.1 (nodup_numberedFrom ..)).imp ?_
  intro p q ⟨hp, hq, hne⟩ s hs s' hs' hkept
  rw [id_of_ofNumbered? hs, id_of_ofNumbered? hs'] at hkept
  obtain ⟨hnode1, hlabel, hnode2, hk⟩ := eq_of_kept_edgeId_eq (hdigest p hp q hq) hkept
  exact hne (Prod.ext (Prod.ext hnode1 (Prod.ext hlabel hnode2)) hk)

end FactGraph
