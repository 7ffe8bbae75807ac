import FactGraph.Proofs.Row.Columns
import FactGraph.Proofs.Row.Explosion

/-!
# Statements restored from their columns

**Theorem (`Statement.ofExploded_toExploded_of_parse`).** A statement that was parsed from a finite
literal is restored from its columns: id, node, label, kind and value are the same. Its written
value is the same, too, *exactly if* no degree of it is negative zero.

Columns of doubles lose the sign of a zero (`readBinary64_columnText`), and equality of doubles does
not see it. Of the written forms only that of a coordinate shows it: the number of a quantity goes
out as it is written, and a tolerance of zero is written without a sign.
-/

namespace FactGraph

open Binary64

/-- A degree of the value is negative zero. -/
def Value.hasNegativeZero : Value → Bool
  | coordinate c => c.latitude.isNegativeZero || c.longitude.isNegativeZero
  | _ => false

namespace Coordinate

variable {c d : Coordinate}

theorem WellFormed.unsignedZeros_eq_self_iff (h : c.WellFormed) :
    c.unsignedZeros = c ↔ (Value.coordinate c).hasNegativeZero = false := by
  obtain ⟨latitude, longitude, precision⟩ := c
  obtain rfl : precision = none := h.precision
  rw [Value.hasNegativeZero, Bool.or_eq_false_iff, ← unsignedZero_eq_self_iff,
    ← unsignedZero_eq_self_iff, unsignedZeros, mk.injEq]
  simp

theorem WellFormed.eq_of_encode_eq (hc : c.WellFormed) (hd : d.WellFormed)
    (h : (Literal.coordinate c).encode = (Literal.coordinate d).encode) : c = d := by
  have hread := Literal.decode_encode_coordinate hc
  rw [h, Literal.decode_encode_coordinate hd] at hread
  exact (Literal.coordinate.inj (Except.ok.inj hread)).symm

end Coordinate

/-- **Without the signs of its zeros** a literal is written as before exactly if no degree has
one. -/
theorem Literal.WellFormed.encode_unsignedZeros_eq_iff {v : Literal} (h : v.WellFormed) :
    v.unsignedZeros.encode = v.encode ↔ (Value.ofLiteral v).hasNegativeZero = false := by
  have hother (hkind : v.kind ≠ .coordinate) (hzero : (Value.ofLiteral v).hasNegativeZero = false) :
      v.unsignedZeros.encode = v.encode ↔ (Value.ofLiteral v).hasNegativeZero = false :=
    iff_of_true (encode_eq_of_unsignedZeros_eq v.unsignedZeros_unsignedZeros hkind) hzero
  cases v with
  | coordinate c =>
    have hzeros := Coordinate.wellFormed_of_unsignedZeros_eq c.unsignedZeros_unsignedZeros h
    rw [Value.ofLiteral, ← Coordinate.WellFormed.unsignedZeros_eq_self_iff h]
    exact ⟨hzeros.eq_of_encode_eq h, fun heq => congrArg (fun d => (coordinate d).encode) heq⟩
  | _ => exact hother (by simp [kind]) rfl

namespace Statement

variable {id node1 label text : String} {s : Statement}

theorem exists_ofLiteral_of_parse (h : parse id node1 label text = .ok s) :
    ∃ v, Literal.decode text = .ok v ∧ s = .ofLiteral id node1 label v := by
  obtain ⟨v, hdecode, hs⟩ := exists_of_map_eq_ok h
  exact ⟨v, hdecode, hs.symm⟩

/-- **A parsed statement is restored from its columns**, and with its written value exactly if no
degree is negative zero. The flat row that its columns are packed to is that of the statement under
the same condition. -/
theorem ofExploded_toExploded_of_parse (hparse : parse id node1 label text = .ok s)
    (hfinite : s.value.toLiteral.isFinite = true) :
    ∃ t, ofExploded s.toExploded = .ok t ∧ t.value.same s.value = true ∧
      t.edge = { s.edge with node2 := t.edge.node2 } ∧
      (t.edge.node2 = s.edge.node2 ↔ s.value.hasNegativeZero = false) ∧
      (implode s.toExploded = .ok s.toFlat ↔ s.value.hasNegativeZero = false) := by
  obtain ⟨v, hdecode, rfl⟩ := exists_ofLiteral_of_parse hparse
  have hformed := (Literal.formed_of_decode hdecode).1
  have hv : v.WellFormed := hformed.wellFormed_iff.2 ((isFinite_toLiteral v).symm.trans hfinite)
  have hzeros := Literal.wellFormed_of_unsignedZeros_eq v.unsignedZeros_unsignedZeros hv
  have hread :=
    ofExploded_of_holds hv (ExplodedRow.holds_toExploded (ofLiteral id node1 label v)) rfl
  have hnode2 : v.unsignedZeros.encode = v.encode ↔
      (ofLiteral id node1 label v).value.hasNegativeZero = false := hv.encode_unsignedZeros_eq_iff
  refine ⟨_, hread, ?_, rfl, hnode2, ?_⟩
  · show (Value.ofLiteral v.unsignedZeros).same (.ofLiteral v) = true
    rw [← Value.same_toLiteral, Value.toLiteral_ofLiteral hzeros, Value.toLiteral_ofLiteral hv]
    exact Literal.same_of_unsignedZeros_eq v.unsignedZeros_unsignedZeros hv
  · have himplode : implode (ofLiteral id node1 label v).toExploded =
        .ok ⟨some id, node1, label, v.unsignedZeros.encode⟩ := by
      rw [implode, hread]
      rfl
    have hflat : (ofLiteral id node1 label v).toFlat = ⟨some id, node1, label, v.encode⟩ := rfl
    rw [himplode, hflat, Except.ok.injEq, FlatRow.mk.injEq]
    simpa only [true_and] using hnode2

/-- A quantity whose tolerance starts at negative zero is restored. -/
theorem ofExploded_toExploded_of_parse_tolerance :
    ∃ s, parse "e1" "Q1" "P1" "-5.0[-0.0,1e3]kg.m2/s-1" = .ok s ∧
      implode s.toExploded = .ok s.toFlat := by
  have hparse : parse "e1" "Q1" "P1" "-5.0[-0.0,1e3]kg.m2/s-1" = .ok (.ofLiteral "e1" "Q1" "P1"
      (.quantity ⟨.float (.ofInt (-5)), some (.ranked true 0 (Nat.zero_le _)), some (.ofInt 1000),
        some "kg.m2/s-1", none⟩)) := by decide +kernel
  obtain ⟨t, -, -, -, -, himplode⟩ := ofExploded_toExploded_of_parse hparse (by decide +kernel)
  exact ⟨_, hparse, himplode.2 rfl⟩

/-- A place on the equator whose latitude is negative zero comes back with another written value. -/
theorem ofExploded_toExploded_negative_zero :
    ∃ s t, parse "e1" "Q1" "P1" "@-0/5" = .ok s ∧ s.value.toLiteral.isFinite = true ∧
      ofExploded s.toExploded = .ok t ∧ s.edge.node2 = "@-0/5" ∧ t.edge.node2 = "@0/5" ∧
      implode s.toExploded ≠ .ok s.toFlat := by
  have hparse : parse "e1" "Q1" "P1" "@-0/5" = .ok (.ofLiteral "e1" "Q1" "P1"
      (.coordinate ⟨.ranked true 0 (Nat.zero_le _), .ofInt 5, none⟩)) := by decide +kernel
  have hread : ofExploded (ofLiteral "e1" "Q1" "P1"
      (.coordinate ⟨.ranked true 0 (Nat.zero_le _), .ofInt 5, none⟩)).toExploded =
      .ok (.ofLiteral "e1" "Q1" "P1" (.coordinate ⟨zero, .ofInt 5, none⟩)) := by decide +kernel
  exact ⟨_, _, hparse, rfl, hread, by decide +kernel, by decide +kernel, by decide +kernel⟩

end Statement

end FactGraph
